import ClassFormat.Proofs.Pool.Writing
/-!
# Constants that were read stay where they are

Bytecode and attributes that are not understood mention constants by their indices, so no operation
may move a constant that was read. Whatever operations do to a pool, the constants that were read
come first in its order. That is why they keep their indices, and why the pool is written with the
bytes they were read from in front.
-/

namespace ClassFormat

open Layout (totalWidth place)

namespace Pool

variable {pool later : Pool} {indices : Indices} {id : ConstantId} {offset : Nat}

/-- The order of a pool that was read comes first in that of any later state of it. -/
theorem ranked_later {tag : PoolTag} {constants : List Constant}
    (h : later.Extends (ofRead tag constants)) :
    ∃ added, later.ranked = slotsOf tag constants ++ added := by
  obtain ⟨added, hranked⟩ := later.ranked_eq_append
  obtain ⟨extra, hextra⟩ := h.constants_eq
  rw [h.tag_eq, h.fixed_eq, ← hextra, tag_ofRead, fixed_ofRead, constants_ofRead,
    List.take_left] at hranked
  exact ⟨added, hranked⟩

/-- Where an order comes first in another, the same constants stand at its offsets. -/
theorem stands_iff_of_ranked {added : List PoolSlot} (hpool : pool.Valid) (hlater : later.Valid)
    (hranked : later.ranked = pool.ranked ++ added) (hlt : offset < pool.layout.stop) :
    later.Stands id offset ↔ pool.Stands id offset := by
  rw [hpool.layout_holds.stop_eq] at hlt
  rw [hlater.stands_iff, hpool.stands_iff, hranked]
  constructor
  · rintro ⟨k, slot, hget, hid, rfl⟩
    rcases Nat.lt_or_ge k pool.ranked.length with hk | hk
    · rw [List.getElem?_append_left hk] at hget
      rw [List.take_append_of_le_length (Nat.le_of_lt hk)]
      exact ⟨k, slot, hget, hid, rfl⟩
    -- What was added stands behind all that was there, so not at this offset.
    · rw [List.take_append, List.take_of_length_le hk, Layout.totalWidth_append] at hlt
      omega
  · rintro ⟨k, slot, hget, hid, rfl⟩
    have hk := (List.getElem?_eq_some_iff.mp hget).1
    refine ⟨k, slot, ?_, hid, ?_⟩
    · rw [List.getElem?_append_left hk, hget]
    · rw [List.take_append_of_le_length (Nat.le_of_lt hk)]

/-- What is looked up depends on what stands at the index. -/
theorem idAt_congr {index : UInt16} (hpool : pool.Valid) (hlater : later.Valid)
    (h : ∀ id, later.Stands id index.toNat ↔ pool.Stands id index.toNat) :
    later.idAt index = pool.idAt index := by
  -- The same handles are found, and where none is found the error names the index only.
  have hiff (id : ConstantId) : later.idAt index = .ok id ↔ pool.idAt index = .ok id := by
    rw [hlater.idAt_eq_ok_iff, hpool.idAt_eq_ok_iff, h]
  cases hfound : pool.idAt index with
  | ok id => exact (hiff id).mpr hfound
  | error cause =>
    cases hother : later.idAt index with
    | ok id =>
      rw [(hiff id).mp hother] at hfound
      cases hfound
    | error second => rw [idAt_eq_error hfound, idAt_eq_error hother]

variable {tag : PoolTag} {raws : List RawConstant} {constants : List Constant}

/-- What a reference was resolved to stands at the index it was read from. -/
theorem stands_of_lookup (hresolves : Resolves tag raws constants) (hlater : later.Valid)
    (hextends : later.Extends (ofRead tag constants)) {tags : List ConstantTag}
    {role : ConstantRole} {index : UInt16}
    (h : (RawPool.ofConstants raws).lookup tag tags role index = .ok id) :
    later.Stands id index.toNat := by
  obtain ⟨raw, hget, -, htag⟩ := RawPool.lookup_ofConstants_iff.mp h
  obtain ⟨hraw, hindex⟩ := Layout.getElem?_place_eq_some.mp hget
  obtain ⟨added, hranked⟩ := ranked_later hextends
  have hlength := hresolves.resolved.length_eq
  have hslot : id.slot < constants.length := by
    rw [← hlength]
    exact (List.getElem?_eq_some_iff.mp hraw).1
  have hslots : id.slot < (slotsOf tag constants).length := by
    rwa [slotsOf, List.length_map, List.length_zipIdx]
  refine hlater.stands_iff.mpr ⟨id.slot, ⟨⟨tag, id.slot⟩, width constants[id.slot]⟩, ?_, ?_, ?_⟩
  · rw [hranked, List.getElem?_append_left hslots, getElem?_slotsOf,
      List.getElem?_eq_getElem hslot, Option.map_some]
  · rw [← htag]
  · rw [hranked, List.take_append_of_le_length (Nat.le_of_lt hslots), totalWidth_take_slotsOf,
      hresolves.totalWidth_take_eq, hindex]

/-- The constants that were read are written as the raw constants they were read from. -/
theorem written_of_resolves (hresolves : Resolves tag raws constants) (hlater : later.Valid)
    (hextends : later.Extends (ofRead tag constants)) (hresolve : later.resolve = .ok indices) :
    Written indices constants raws := by
  have hwritten : ∀ {some : List RawConstant} {resolved : List Constant},
      List.Forall₂ (fun raw constant =>
        raw.resolve ((RawPool.ofConstants raws).lookup tag) = .ok constant) some resolved →
      (∀ raw ∈ some, raw.Canonical) → Written indices resolved some := by
    intro some resolved h hcanonical
    induction h with
    | nil => exact .nil
    | cons hraw _ ih =>
      rw [List.forall_mem_cons] at hcanonical
      refine .cons ⟨?_, hcanonical.1⟩ (ih hcanonical.2)
      refine RawConstant.toRaw_of_resolve hraw hcanonical.1 fun tags role index id hlookup => ?_
      exact (hlater.indexOf_eq_ok_iff hresolve).mpr
        (stands_of_lookup hresolves hlater hextends hlookup)
  exact hwritten hresolves.resolved hresolves.canonical

/-- Numbered elements are found by their numbers. -/
theorem filterMap_zipIdx {α : Type} {find : Nat → Option α} {elements : List α} {start : Nat}
    (h : ∀ k element, elements[k]? = some element → find (start + k) = some element) :
    (elements.zipIdx start).filterMap (fun entry => find entry.2) = elements := by
  induction elements generalizing start with
  | nil => rfl
  | cons element elements ih =>
    have hfirst : find start = some element := h 0 element rfl
    rw [List.zipIdx_cons, List.filterMap_cons]
    simp only [hfirst]
    rw [ih]
    intro k other hother
    rw [Nat.add_assoc, Nat.add_comm 1 k]
    exact h (k + 1) other hother

/-- The constants that were read are the first to be written. -/
theorem rankedConstants_later (h : later.Extends (ofRead tag constants)) :
    ∃ added, later.rankedConstants = constants ++ added := by
  obtain ⟨added, hranked⟩ := ranked_later h
  obtain ⟨extra, hextra⟩ := h.constants_eq
  rw [constants_ofRead] at hextra
  rw [rankedConstants, hranked, List.filterMap_append, slotsOf, List.filterMap_map, ← hextra]
  refine ⟨_, congrArg (· ++ _) (filterMap_zipIdx fun k constant hget => ?_)⟩
  rw [Nat.zero_add, List.getElem?_append_left (List.getElem?_eq_some_iff.mp hget).1, hget]

/-- Raw constants written in front are the same, whatever follows. -/
theorem written_prefix {added : List Constant} {written : List RawConstant}
    (h : Written indices constants raws) (hwritten : Written indices (constants ++ added) written) :
    ∃ others, written = raws ++ others := by
  -- Both were made of the same constants with the same indices, one by one.
  induction h generalizing written with
  | nil => exact ⟨written, rfl⟩
  | cons hraw _ ih =>
    rcases hwritten with _ | ⟨hfirst, hothers⟩
    obtain ⟨others, rfl⟩ := ih hothers
    have heq := hraw.1.symm.trans hfirst.1
    exact ⟨others, by rw [Except.ok.inj heq, List.cons_append]⟩

/-- As long as no constant is added, a pool that was read is written as it was read. -/
theorem exists_encode_of_size_eq (hresolves : Resolves tag raws constants) (hlater : later.Valid)
    (hextends : later.Extends (ofRead tag constants)) (hsize : later.size = constants.length) :
    ∃ indices, later.encode
      = .ok (BigEndian.encode 2 (1 + totalWidth raws) ++ RawPool.bytesOf raws, indices) := by
  obtain ⟨added, hranked⟩ := rankedConstants_later hextends
  -- No constant more than were read: nothing was added behind them.
  have hadded : added = [] := by
    have hlength := congrArg List.length hranked
    rw [length_rankedConstants, hsize, List.length_append] at hlength
    exact List.eq_nil_of_length_eq_zero (by omega)
  rw [hadded, List.append_nil] at hranked
  have hwidth : totalWidth later.constants = totalWidth raws := by
    rw [← totalWidth_rankedConstants, hranked, hresolves.totalWidth_eq]
  have hroom := hresolves.room
  obtain ⟨indices, hresolve, -⟩ := hlater.resolve_eq.1 (by omega)
  refine ⟨indices, hlater.encode_eq_ok_iff.mpr ⟨hresolve, raws, ?_, rfl⟩⟩
  rw [hranked]
  exact written_of_resolves hresolves hlater hextends hresolve

/-- The count that was read is where the constants that were read end. -/
theorem stop_ofRead (hresolves : Resolves tag raws constants) :
    (ofRead tag constants).layout.stop = 1 + totalWidth raws := by
  rw [(valid_ofRead tag constants).layout_holds.stop_eq, totalWidth_ranked, constants_ofRead,
    hresolves.totalWidth_eq]

/-- Indices below the count that was read keep their handles. -/
theorem idAt_later (hresolves : Resolves tag raws constants) (hlater : later.Valid)
    (hextends : later.Extends (ofRead tag constants)) {index : UInt16}
    (hlt : index.toNat < 1 + totalWidth raws) :
    later.idAt index = (ofRead tag constants).idAt index := by
  have hpool := valid_ofRead tag constants
  obtain ⟨added, hranked⟩ := ranked_later hextends
  rw [← ranked_ofRead] at hranked
  rw [← stop_ofRead hresolves] at hlt
  exact idAt_congr hpool hlater fun id => stands_iff_of_ranked hpool hlater hranked hlt

/-- What an index leads to stays what it is if the handle at the index does. -/
theorem constantAt_later (hpool : pool.Valid) (hextends : later.Extends pool) {index : UInt16}
    (hid : later.idAt index = pool.idAt index) :
    later.constantAt index = pool.constantAt index := by
  rw [constantAt, constantAt, hid]
  cases hfound : pool.idAt index with
  | error cause => rfl
  | ok id =>
    have howns := hpool.exists_stands_iff.mp ⟨_, hpool.idAt_eq_ok_iff.mp hfound⟩
    obtain ⟨constant, hconstant⟩ := exists_constant_iff.mpr howns
    exact (hextends.constant_eq hconstant).trans hconstant.symm

/-- A constant that was read cannot be marked. -/
theorem apply_setPriority_later (hextends : later.Extends (ofRead tag constants))
    {index : UInt16} (hid : (ofRead tag constants).idAt index = .ok id) :
    (setPriority id).apply later = (.error (.fixedConstantIndex id), later) := by
  have hpool := valid_ofRead tag constants
  have howns := hpool.exists_stands_iff.mp ⟨_, hpool.idAt_eq_ok_iff.mp hid⟩
  obtain ⟨constant, hconstant⟩ := exists_constant_iff.mpr howns
  have hlater := exists_constant_iff.mp ⟨constant, hextends.constant_eq hconstant⟩
  have hfixed : id.slot < later.fixed := by
    rw [hextends.fixed_eq]
    exact (owns_iff.mp howns).2
  rw [apply_setPriority, if_pos hlater, if_pos hfixed]

/-- Behind the count, the bytes that were read are the first to be written. -/
theorem bytesOf_prefix_later (hresolves : Resolves tag raws constants) (hlater : later.Valid)
    (hextends : later.Extends (ofRead tag constants)) {written : Bytes}
    (hencode : later.encode = .ok (written, indices)) :
    RawPool.bytesOf raws <+: written.drop 2 := by
  obtain ⟨hresolve, found, hfound, rfl⟩ := hlater.encode_eq_ok_iff.mp hencode
  obtain ⟨added, hranked⟩ := rankedConstants_later hextends
  rw [hranked] at hfound
  obtain ⟨others, rfl⟩ :=
    written_prefix (written_of_resolves hresolves hlater hextends hresolve) hfound
  rw [List.drop_left' (BigEndian.length_encode ..), RawPool.bytesOf, RawPool.bytesOf,
    List.flatMap_append]
  exact List.prefix_append ..

/-- **Constants that were read never move.** -/
theorem read_constants_fixed {input rest : Bytes} {notices : List Notice}
    (hread : (Pool.read tag).Reads input pool rest notices) (operations : List Operation) :
    ∃ (head : Bytes) (count : Nat), input = head ++ rest ∧ count < 2 ^ 16
      ∧ head.take 2 = BigEndian.encode 2 count
      ∧ (∀ index : UInt16, index.toNat < count →
        (run operations pool).idAt index = pool.idAt index
        ∧ (run operations pool).constantAt index = pool.constantAt index)
      ∧ (∀ index id, pool.idAt index = .ok id →
        (setPriority id).apply (run operations pool)
          = (.error (.fixedConstantIndex id), run operations pool))
      ∧ (∀ written indices, (run operations pool).encode = .ok (written, indices) →
        head.drop 2 <+: written.drop 2)
      ∧ ((run operations pool).size = pool.size →
        ∃ indices, (run operations pool).encode = .ok (head, indices)) := by
  obtain ⟨raws, constants, hresolves, rfl, rfl, -⟩ := reads_read_iff.mp hread
  have hchanges := changes_run operations (ofRead tag constants)
  have hpool := valid_ofRead tag constants
  have hextends := hchanges.extends
  have hlater := hpool.changes hchanges
  refine ⟨_, 1 + totalWidth raws, rfl, hresolves.room, ?_, fun index hlt => ?_,
    fun index id hid => ?_, fun written indices hencode => ?_, fun hsize => ?_⟩
  · exact List.take_left' (BigEndian.length_encode ..)
  · have hid := idAt_later hresolves hlater hextends hlt
    exact ⟨hid, constantAt_later hpool hextends hid⟩
  · exact apply_setPriority_later hextends hid
  · rw [List.drop_left' (BigEndian.length_encode ..)]
    exact bytesOf_prefix_later hresolves hlater hextends hencode
  · rw [← length_constants (ofRead tag constants), constants_ofRead] at hsize
    exact exists_encode_of_size_eq hresolves hlater hextends hsize

/-- A `long` that was read stays in front when two integers are added and the marked one of them is
laid out before the other. -/
theorem read_constants_fixed_of_long : ∃ (pool : Pool) (notices : List Notice),
    (Pool.read ⟨0⟩).Reads [0, 3, 5, 0, 0, 0, 0, 0, 0, 0, 5] pool [] notices
    ∧ let later := run [.addInteger 1, .addInteger 2, .setPriority ⟨⟨0⟩, 2⟩] pool
      later.constantAt 1 = .ok (.long 5) ∧ later.constantAt 3 = .ok (.integer 2)
      ∧ later.constantAt 4 = .ok (.integer 1)
      ∧ (setPriority ⟨⟨0⟩, 0⟩).apply later = (.error (.fixedConstantIndex ⟨⟨0⟩, 0⟩), later)
      ∧ ∀ written indices, later.encode = .ok (written, indices) →
        [5, 0, 0, 0, 0, 0, 0, 0, 5] <+: written.drop 2 := by
  have hread : (Pool.read ⟨0⟩).Reads [0, 3, 5, 0, 0, 0, 0, 0, 0, 0, 5] (ofRead ⟨0⟩ [.long 5]) []
      [.readPool 1 (ofRead ⟨0⟩ [.long 5]).interned.size] :=
    reads_read_iff.mpr ⟨_, _, resolves_long, rfl, rfl, rfl⟩
  obtain ⟨hrun, -⟩ := run_marking_second
  obtain ⟨head, count, hinput, hlt, hcount, hkept, hfixed, hprefix, -⟩ :=
    read_constants_fixed hread [.addInteger 1, .addInteger 2, .setPriority ⟨⟨0⟩, 2⟩]
  rw [List.append_nil] at hinput
  have hthree : count = 3 := by
    have hdecode := BigEndian.decode_encode_of_lt (show count < 256 ^ 2 from hlt)
    rw [← hdecode, ← hcount, ← hinput]
    rfl
  refine ⟨_, _, hread, (hkept 1 (by rw [hthree]; decide)).2, ?_, ?_, hfixed 1 _ rfl, ?_⟩
  · rw [hrun]
    rfl
  · rw [hrun]
    rfl
  · rw [← hinput] at hprefix
    exact hprefix

end Pool

end ClassFormat
