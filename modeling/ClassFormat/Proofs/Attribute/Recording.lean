import ClassFormat.Proofs.Attribute.Joining
import ClassFormat.Proofs.Pool.Kinds
import Mathlib.Logic.Function.Basic
/-!
# Recording local variables

A table of local variables is made in rounds: a builder gets variables and has its labels placed, it
is finalized to a table, and the table is written, becomes a builder again, or is replaced by one
that is read. Meanwhile the pools change that the names and the descriptors are added to. A
`Recording` is the state of all this, and a reachable one is what such rounds lead to.

What each step keeps is that all entries are `Known`: their handles are on a text and on the
descriptor of the type, in the pools that gave them out. So if a table is written with the indices
of one pool, all its handles are from that pool, and reading finds the entries again.

Labels are placed entry by entry, so what a builder gets is finalized apart from what it has
(`exists_pending`). In a builder that was made of a table there is no label to place.
-/

namespace ClassFormat

/-- Whether a variable has a name, and ranges that are all decided. -/
def LocalVariable.isWritable (described : LocalVariable) : Bool :=
  described.name.isSome && !described.ranges.isEmpty
    && described.ranges.all LocationRange.isDecided

/-- The pools in use, each under its tag, with a builder and a table of local variables. -/
structure Recording where
  pools : PoolTag → Pool
  builder : LocalVariableBuilder
  table : LocalVariableTable

namespace Recording

/-! ## Steps and rounds -/

/-- A step that a builder is used with. -/
inductive Step where
  /-- Something else is done to a pool. -/
  | operate (tag : PoolTag) (operation : Pool.Operation)
  | add (tag : PoolTag) (described : LocalVariable)
  | resolve (placement : Placement)

/-- What one step makes of the recording. Adding a variable changes its pool as well. -/
def after (recording : Recording) : Step → Recording
  | .operate tag operation =>
    let pool := operation.after (recording.pools tag)
    { recording with pools := Function.update recording.pools tag pool }
  | .add tag described =>
    let added := (recording.builder.add described).run (recording.pools tag)
    { recording with
      builder := added.1
      pools := Function.update recording.pools tag added.2 }
  | .resolve placement => { recording with builder := recording.builder.resolve placement }

/-- What some steps make of it, one after another. -/
def run (steps : List Step) (recording : Recording) : Recording := steps.foldl after recording

/-- Whether each pool is under its own tag, and made by operations. -/
def Filed (pools : PoolTag → Pool) : Prop := ∀ tag, (pools tag).Reachable ∧ (pools tag).tag = tag

/-- What comes of any rounds. -/
inductive Reachable : Recording → Prop where
  | start (pools : PoolTag → Pool) (h : Filed pools) : Reachable ⟨pools, .empty, ⟨[]⟩⟩
  | step {recording : Recording} (step : Step) (h : Reachable recording) :
    Reachable (recording.after step)
  /-- A new builder is taken. -/
  | renew {recording : Recording} (h : Reachable recording) :
    Reachable { recording with builder := .empty }
  | finalize {recording : Recording} (h : Reachable recording) :
    Reachable { recording with table := recording.builder.finalize.value }
  /-- The table becomes a builder again. -/
  | reopen {recording : Recording} (h : Reachable recording) :
    Reachable { recording with builder := recording.table.toBuilder }
  | read {recording : Recording} {tag : PoolTag} {input rest : Bytes} {table : LocalVariableTable}
    {notices : List Notice} (h : Reachable recording)
    (hread : (LocalVariableTable.read (recording.pools tag)).Reads input table rest notices) :
    Reachable { recording with table }

/-! ## What is recorded -/

/-- What a step makes of a range. -/
def Step.place : Step → LocationRange → LocationRange
  | .resolve placement, range => placement.resolveRange range
  | _, range => range

/-- A range with the labels placed by some steps. -/
def placed (steps : List Step) (range : LocationRange) : LocationRange :=
  steps.foldl (fun range step => step.place range) range

/-- The variable that a builder gets, if any, with the tag of the pool it is added to. -/
def Step.recorded : Step → List (PoolTag × LocalVariable)
  | .add tag described => [(tag, described)]
  | _ => []

/-- A variable with its labels placed. -/
def placeIn (steps : List Step) (source : PoolTag × LocalVariable) : PoolTag × LocalVariable :=
  (source.1, { source.2 with ranges := source.2.ranges.map (placed steps) })

/-- The variables that a builder gets, with the labels placed by the steps after. -/
def recorded : List Step → List (PoolTag × LocalVariable)
  | [] => []
  | step :: steps => step.recorded.map (placeIn steps) ++ recorded steps

/-- The entry of a variable: its name and its descriptor are constants of the pool. -/
structure Recorded (pools : PoolTag → Pool) (source : PoolTag × LocalVariable)
    (entry : VariableEntry LocationRange) : Prop where
  name_eq : ∃ name, source.2.name = some name
    ∧ (pools source.1).constant entry.name.id = .ok (.utf8 name)
  descriptor_eq : (pools source.1).constant entry.descriptor.id
    = .ok (.utf8 source.2.type.render)
  type_eq : entry.type = source.2.type
  slot_eq : entry.slot = source.2.slot
  ranges_eq : entry.ranges = source.2.ranges

/-- An entry with the labels of its ranges placed. -/
def place (steps : List Step) (entry : VariableEntry LocationRange) :
    VariableEntry LocationRange :=
  { entry with ranges := entry.ranges.map (placed steps) }

variable {pools later : PoolTag → Pool} {steps : List Step} {tag : PoolTag} {pool : Pool}
  {recording : Recording}

/-- A recorded variable stays one while the pools grow. -/
theorem Recorded.extends {source : PoolTag × LocalVariable} {entry : VariableEntry LocationRange}
    (h : Recorded pools source entry) (hextends : ∀ tag, (later tag).Extends (pools tag)) :
    Recorded later source entry where
  name_eq := by
    obtain ⟨name, hname, hconstant⟩ := h.name_eq
    exact ⟨name, hname, (hextends _).constant_eq hconstant⟩
  descriptor_eq := (hextends _).constant_eq h.descriptor_eq
  type_eq := h.type_eq
  slot_eq := h.slot_eq
  ranges_eq := h.ranges_eq

/-! ## Pools -/

/-- An operation on one pool extends that pool and leaves the others as they are. -/
theorem extends_update (hpool : pool.Extends (pools tag)) (other : PoolTag) :
    (Function.update pools tag pool other).Extends (pools other) := by
  rw [Function.update_apply]
  split
  · rename_i heq
    rw [heq]
    exact hpool
  · exact .refl _

/-- Putting a grown pool in the place of the old one keeps every pool filed under its tag. -/
theorem Filed.update (h : Filed pools) (hreachable : pool.Reachable)
    (hextends : pool.Extends (pools tag)) : Filed (Function.update pools tag pool) := by
  intro other
  rw [Function.update_apply]
  split
  · rename_i heq
    exact ⟨hreachable, hextends.tag_eq.trans ((h tag).2.trans heq.symm)⟩
  · exact h other

/-- A text that is added is there. -/
theorem exists_addUtf8 (h : pool.Reachable) (text : String) : ∃ (name : Utf8Id) (later : Pool),
    Pool.addUtf8 text pool = (name, later) ∧ later.Reachable ∧ later.Extends pool
      ∧ later.constant name.id = .ok (.utf8 text) := by
  have hleaves := Pool.Leaves.addUtf8 h.builtFor.typedFor text
  exact ⟨_, _, rfl, h.operate (.addUtf8 text), hleaves.2.1, hleaves.2.2⟩

/-- A named variable becomes an entry behind those there are. -/
theorem exists_add (h : Filed pools) (tag : PoolTag) {described : LocalVariable}
    (hname : described.name.isSome = true) : ∃ entry later, later.Reachable
      ∧ later.Extends (pools tag)
      ∧ Recorded (Function.update pools tag later) (tag, described) entry
      ∧ ∀ builder : LocalVariableBuilder,
        (builder.add described).run (pools tag) = (⟨builder.pending.push entry⟩, later) := by
  obtain ⟨name, hname⟩ := Option.isSome_iff_exists.mp hname
  obtain ⟨nameId, named, haddName, hnamed, hextends, hnameConstant⟩ :=
    exists_addUtf8 (h tag).1 name
  obtain ⟨descriptorId, later, haddDescriptor, hlater, hlaterExtends, hdescriptor⟩ :=
    exists_addUtf8 hnamed described.type.render
  refine ⟨⟨nameId, descriptorId, described.type, described.slot, described.ranges⟩, later, hlater,
    hlaterExtends.trans hextends, ?_, fun builder => ?_⟩
  · have hself : Function.update pools tag later tag = later := Function.update_self ..
    have hnameLater := hlaterExtends.constant_eq hnameConstant
    rw [← hself] at hnameLater hdescriptor
    exact ⟨⟨name, hname, hnameLater⟩, hdescriptor, rfl, rfl, rfl⟩
  · have hrunName : (Pool.addUtf8 name).run (pools tag) = (nameId, named) := haddName
    have hrunDescriptor : (Pool.addUtf8 described.type.render).run named = (descriptorId, later) :=
      haddDescriptor
    rw [LocalVariableBuilder.add, hname, StateT.run_bind, hrunName]
    show StateT.run (Pool.addUtf8 described.type.render >>= _) named = _
    rw [StateT.run_bind, hrunDescriptor]
    rfl

/-- A variable without a name changes nothing. -/
theorem add_of_unnamed (builder : LocalVariableBuilder) {described : LocalVariable}
    (hname : described.name.isSome = false) :
    (builder.add described).run pool = (builder, pool) := by
  rw [LocalVariableBuilder.add]
  split
  · rfl
  · rename_i heq
    rw [heq] at hname
    cases hname

/-! ## Runs -/

/-- The entry of a variable is, with its labels placed, that of the variable with labels placed. -/
theorem Recorded.place {source : PoolTag × LocalVariable} {entry : VariableEntry LocationRange}
    (h : Recorded pools source entry) (steps : List Step) :
    Recorded pools (placeIn steps source) (Recording.place steps entry) where
  name_eq := h.name_eq
  descriptor_eq := h.descriptor_eq
  type_eq := h.type_eq
  slot_eq := h.slot_eq
  ranges_eq := congrArg (List.map (placed steps)) h.ranges_eq

/-- With no step behind it an entry is as it was added. -/
theorem place_nil (entry : VariableEntry LocationRange) : place [] entry = entry := by
  have hranges : entry.ranges.map (placed []) = entry.ranges := List.map_id _
  rw [place, hranges]

/-- The steps place the labels of an entry one after the other. -/
theorem place_cons (step : Step) (steps : List Step) (entry : VariableEntry LocationRange) :
    place (step :: steps) entry = place steps (place [step] entry) := by
  have hranges : entry.ranges.map (placed (step :: steps))
      = (entry.ranges.map (placed [step])).map (placed steps) := by
    rw [List.map_map]
    rfl
  rw [place, hranges]
  rfl

/-- What a step adds to a builder does not depend on what it has; of that it places the labels. -/
theorem exists_after (step : Step) (h : Filed pools) :
    ∃ (later : PoolTag → Pool) (pending : List (VariableEntry LocationRange)),
      Filed later ∧ (∀ tag, (later tag).Extends (pools tag))
      ∧ List.Forall₂ (Recorded later)
        (step.recorded.filter fun source => source.2.name.isSome) pending
      ∧ ∀ builder table, after ⟨pools, builder, table⟩ step
        = ⟨later, ⟨(builder.pending.toList.map (place [step]) ++ pending).toArray⟩, table⟩ := by
  -- Only placing labels changes the entries there are.
  have hkept (builder : LocalVariableBuilder) :
      (builder.pending.toList.map (place [])).toArray = builder.pending := by
    rw [funext place_nil, List.map_id', Array.toArray_toList]
  cases step with
  | operate tag operation =>
    have hextends := (Pool.changes_after operation (pools tag)).extends
    refine ⟨_, [], h.update ((h tag).1.operate operation) hextends, extends_update hextends, .nil,
      fun builder table => ?_⟩
    rw [List.append_nil]
    exact congrArg (Recording.mk _ ⟨·⟩ table) (hkept builder).symm
  | add tag described =>
    cases hname : described.name.isSome with
    | false =>
      refine ⟨pools, [], h, fun _ => .refl _, ?_, fun builder table => ?_⟩
      · rw [Step.recorded, List.filter_cons_of_neg (by simp [hname])]
        exact .nil
      · simp only [after, add_of_unnamed builder hname, Function.update_eq_self, List.append_nil]
        exact congrArg (Recording.mk pools ⟨·⟩ table) (hkept builder).symm
    | true =>
      obtain ⟨entry, pool, hpool, hextends, hentry, hadd⟩ := exists_add h tag hname
      refine ⟨_, [entry], h.update hpool hextends, extends_update hextends, ?_,
        fun builder table => ?_⟩
      · rw [Step.recorded, List.filter_cons_of_pos (by simp [hname])]
        exact .cons hentry .nil
      · have hpush : (builder.pending.toList.map (place []) ++ [entry]).toArray
            = builder.pending.push entry := by
          rw [← List.append_toArray, hkept]
          rfl
        simp only [after, hadd]
        exact congrArg (Recording.mk _ ⟨·⟩ table) hpush.symm
  | resolve placement =>
    refine ⟨pools, [], h, fun _ => .refl _, .nil, fun builder table => ?_⟩
    rw [List.append_nil, ← Array.toList_map, Array.toArray_toList]
    rfl

/-- It is so for several steps. -/
theorem exists_pending (steps : List Step) (h : Filed pools) :
    ∃ (later : PoolTag → Pool) (pending : List (VariableEntry LocationRange)),
      Filed later ∧ (∀ tag, (later tag).Extends (pools tag))
      ∧ List.Forall₂ (Recorded later)
        ((recorded steps).filter fun source => source.2.name.isSome) pending
      ∧ ∀ builder table, run steps ⟨pools, builder, table⟩
        = ⟨later, ⟨(builder.pending.toList.map (place steps) ++ pending).toArray⟩, table⟩ := by
  induction steps generalizing pools with
  | nil =>
    refine ⟨pools, [], h, fun _ => .refl _, .nil, fun builder table => ?_⟩
    rw [funext place_nil, List.map_id', List.append_nil, Array.toArray_toList]
    rfl
  | cons step steps ih =>
    obtain ⟨middle, first, hmiddle, hextends, hfirst, hafter⟩ := exists_after step h
    obtain ⟨later, pending, hfiled, hlater, hpending, hrun⟩ := ih hmiddle
    refine ⟨later, first.map (place steps) ++ pending, hfiled,
      fun tag => (hlater tag).trans (hextends tag), ?_, fun builder table => ?_⟩
    · rw [recorded, List.filter_append, List.filter_map]
      have hplaced := hfirst.imp fun _ _ hentry => (hentry.extends hlater).place steps
      exact List.rel_append (List.forall₂_map_left_iff.mpr
        (List.forall₂_map_right_iff.mpr hplaced)) hpending
    · rw [run, List.foldl_cons, hafter, ← run, hrun, funext (place_cons step steps),
        List.map_append, List.map_map, List.append_assoc]
      rfl

/-! ## What all steps keep -/

/-- The handles of an entry are on a text and on the descriptor of its type, in the pools that gave
them out. -/
structure Known {ρ : Type} (pools : PoolTag → Pool) (entry : VariableEntry ρ) : Prop where
  name_leads : (pools entry.name.id.pool).Leads [.utf8] entry.name.id
  descriptor_eq : (pools entry.descriptor.id.pool).constant entry.descriptor.id
    = .ok (.utf8 entry.type.render)

/-- Name and descriptor of an entry stay known while the pools grow. -/
theorem Known.extends {ρ : Type} {entry : VariableEntry ρ} (h : Known pools entry)
    (hextends : ∀ tag, (later tag).Extends (pools tag)) : Known later entry where
  name_leads := h.name_leads.extends (hextends _)
  descriptor_eq := (hextends _).constant_eq h.descriptor_eq

/-- A handle on a constant was given out by the pool that it says. -/
theorem Filed.pool_eq (h : Filed pools) {id : ConstantId} {constant : Constant}
    (hconstant : (pools tag).constant id = .ok constant) : id.pool = tag :=
  (Pool.constant_eq_ok_iff.mp hconstant).1.trans (h tag).2

/-- A recorded variable has a name and a descriptor that its pool knows. -/
theorem Recorded.known {source : PoolTag × LocalVariable} {entry : VariableEntry LocationRange}
    (h : Recorded pools source entry) (hfiled : Filed pools) : Known pools entry := by
  obtain ⟨name, -, hname⟩ := h.name_eq
  have hdescriptor := h.descriptor_eq
  constructor
  · rw [hfiled.pool_eq hname]
    exact ⟨_, hname, List.mem_singleton_self _⟩
  · rw [hfiled.pool_eq hdescriptor, h.type_eq]
    exact hdescriptor

/-- The entry of a row that was read is known. -/
theorem known_of_row (h : Filed pools) {row : VariableRow} {entry : VariableEntry Span}
    (hentry : row.entry (pools tag) = .ok entry) : Known pools entry := by
  simp only [VariableRow.entry, bind_eq_ok_iff, pure_eq_ok_iff, FieldType.parse_eq_ok_iff] at hentry
  obtain ⟨name, hname, descriptor, -, text, htext, type, ⟨-, rfl⟩, rfl⟩ := hentry
  have hleads := Pool.leads_of_utf8At hname
  have hdescriptor := Pool.constant_of_text htext
  obtain ⟨constant, hconstant, -⟩ := id hleads
  constructor
  · rwa [h.pool_eq hconstant]
  · rwa [h.pool_eq hdescriptor]

/-- Whether an entry has ranges, and none of them is empty. -/
def HasRanges (entry : VariableEntry Span) : Prop :=
  entry.ranges ≠ [] ∧ ∀ span ∈ entry.ranges, span.start < span.stop

/-- A row of a file has exactly one range. -/
theorem hasRanges_of_row {row : VariableRow} {entry : VariableEntry Span}
    (hentry : row.entry pool = .ok entry) : HasRanges entry := by
  rw [HasRanges, row.ranges_of_entry hentry]
  exact ⟨List.cons_ne_nil row.span [], List.forall_mem_singleton.mpr row.span_lt⟩

/-- What all steps keep. -/
structure Sound (recording : Recording) : Prop where
  filed : Filed recording.pools
  builder : ∀ entry ∈ recording.builder.pending.toList, Known recording.pools entry
  table : ∀ entry ∈ recording.table.entries, Known recording.pools entry ∧ HasRanges entry

/-- Opening a finished table again leaves its names and descriptors as they were. -/
theorem known_reopened {entry : VariableEntry Span} :
    Known pools entry.reopened ↔ Known pools entry :=
  ⟨fun h => ⟨h.name_leads, h.descriptor_eq⟩, fun h => ⟨h.name_leads, h.descriptor_eq⟩⟩

/-- The invariant of a recording is preserved by every step. -/
theorem Sound.after (h : recording.Sound) (step : Step) : (recording.after step).Sound := by
  obtain ⟨later, pending, hfiled, hextends, hpending, hafter⟩ := exists_after step h.filed
  have heq : recording.after step = _ := hafter recording.builder recording.table
  rw [heq]
  refine ⟨hfiled, ?_, fun entry hentry => ?_⟩
  · rw [List.toList_toArray, List.forall_mem_append, List.forall_mem_map]
    refine ⟨fun entry hentry => ?_, ?_⟩
    · have hknown := (h.builder entry hentry).extends hextends
      exact ⟨hknown.name_leads, hknown.descriptor_eq⟩
    · exact ((List.forall₂_and_left _ _).mp
        (hpending.flip.imp fun _ _ hentry => ⟨hentry.known hfiled, hentry⟩)).1
  · exact ⟨(h.table entry hentry).1.extends hextends, (h.table entry hentry).2⟩

/-- What comes of any rounds is sound. -/
theorem Reachable.sound (h : recording.Reachable) : recording.Sound := by
  induction h with
  | start pools hfiled => exact ⟨hfiled, by simp [LocalVariableBuilder.empty], by simp⟩
  | step step _ ih => exact ih.after step
  | renew _ ih => exact ⟨ih.filed, by simp [LocalVariableBuilder.empty], ih.table⟩
  | finalize _ ih =>
    refine ⟨ih.filed, ih.builder, fun entry hentry => ?_⟩
    obtain ⟨pending, hpending, hfinal⟩ := List.mem_filterMap.mp hentry
    obtain ⟨rfl, hranges⟩ := VariableEntry.finalize?_eq_some_iff.mp hfinal
    exact ⟨known_reopened.mp (ih.builder _ hpending), hranges⟩
  | reopen _ ih =>
    refine ⟨ih.filed, ?_, ih.table⟩
    rw [LocalVariableTable.toBuilder, List.toList_toArray, List.forall_mem_map]
    exact fun entry hentry => known_reopened.mpr (ih.table entry hentry).1
  | read _ hread ih =>
    refine ⟨ih.filed, ih.builder, LocalVariableTable.forall_of_reads_read ?_ ?_ hread⟩
    · exact fun row entry hentry => ⟨known_of_row ih.filed hentry, hasRanges_of_row hentry⟩
    · rintro row next ⟨hknown, hranges⟩ ⟨-, hnext⟩
      exact ⟨⟨hknown.name_leads, hknown.descriptor_eq⟩,
        List.append_ne_nil_of_left_ne_nil hranges.1 next.ranges,
        List.forall_mem_append.mpr ⟨hranges.2, hnext.2⟩⟩

/-! ## Finalizing -/

/-- An entry is finalized exactly if it has ranges and all of them are decided. -/
theorem exists_finalize?_iff {entry : VariableEntry LocationRange} :
    (∃ final, entry.finalize? = some final)
      ↔ entry.ranges ≠ [] ∧ entry.ranges.all LocationRange.isDecided = true := by
  rw [LocationRange.all_isDecided_iff]
  constructor
  · rintro ⟨final, hfinal⟩
    obtain ⟨rfl, hne, hlt⟩ := VariableEntry.finalize?_eq_some_iff.mp hfinal
    have hranges : final.reopened.ranges = final.ranges.map LocationRange.ofSpan := rfl
    exact ⟨hranges ▸ List.map_eq_nil_iff.not.mpr hne, final.ranges,
      LocationRange.mapM_span?_eq_some_iff.mpr ⟨hranges, hlt⟩⟩
  · rintro ⟨hne, spans, hspans⟩
    obtain ⟨hranges, hlt⟩ := LocationRange.mapM_span?_eq_some_iff.mp hspans
    refine ⟨{ entry with ranges := spans }, VariableEntry.finalize?_eq_some_iff.mpr ⟨?_, ?_, hlt⟩⟩
    · rw [VariableEntry.reopened, ← hranges]
    · rintro rfl
      exact hne hranges

/-- Exactly the entry of a variable that can be written survives the end of the recording. -/
theorem Recorded.isWritable_iff {source : PoolTag × LocalVariable}
    {entry : VariableEntry LocationRange} (h : Recorded pools source entry) :
    source.2.isWritable = true ↔ ∃ final, entry.finalize? = some final := by
  obtain ⟨name, hname, -⟩ := h.name_eq
  rw [exists_finalize?_iff, h.ranges_eq, LocalVariable.isWritable, hname]
  simp

/-- Of the entries of variables, those of writable variables are kept. -/
theorem forall₂_finalize {sources : List (PoolTag × LocalVariable)}
    {pending : List (VariableEntry LocationRange)}
    (h : List.Forall₂ (Recorded pools) sources pending) :
    List.Forall₂ (fun source final => Recorded pools source final.reopened)
      (sources.filter fun source => source.2.isWritable)
      (pending.filterMap VariableEntry.finalize?) := by
  induction h with
  | nil => exact .nil
  | @cons source entry _ _ hentry _ ih =>
    cases hfinal : entry.finalize? with
    | some final =>
      have hwritable := hentry.isWritable_iff.mpr ⟨final, hfinal⟩
      rw [List.filter_cons_of_pos (by exact hwritable), List.filterMap_cons_some hfinal]
      rw [(VariableEntry.finalize?_eq_some_iff.mp hfinal).1] at hentry
      exact .cons hentry ih
    | none =>
      have hnot : ¬ source.2.isWritable = true := by
        rw [hentry.isWritable_iff, hfinal]
        simp
      rw [List.filter_cons_of_neg (by exact hnot), List.filterMap_cons_none hfinal]
      exact ih

/-- A writable variable has a name. -/
theorem filter_isWritable (sources : List (PoolTag × LocalVariable)) :
    (sources.filter fun source => source.2.name.isSome).filter (fun source => source.2.isWritable)
      = sources.filter fun source => source.2.isWritable := by
  rw [List.filter_filter]
  refine List.filter_congr fun source _ => ?_
  rw [LocalVariable.isWritable]
  cases source.2.name.isSome <;> simp

/-- In an entry of a table there is no label to place. -/
theorem place_reopened (steps : List Step) (entry : VariableEntry Span) :
    place steps entry.reopened = entry.reopened := by
  induction steps with
  | nil => exact place_nil _
  | cons step steps ih =>
    have hplace : place [step] entry.reopened = entry.reopened := by
      have hstep : (fun span => placed [step] (.ofSpan span)) = LocationRange.ofSpan := by
        funext span
        cases step <;> rfl
      rw [place, VariableEntry.reopened, List.map_map]
      exact congrArg (fun make => { entry with ranges := entry.ranges.map make }) hstep
    rw [place_cons, hplace, ih]

/-- Entries of a table are finalized to themselves. -/
theorem filterMap_reopened {entries : List (VariableEntry Span)}
    (h : ∀ entry ∈ entries, HasRanges entry) :
    (entries.map VariableEntry.reopened).filterMap VariableEntry.finalize? = entries := by
  induction entries with
  | nil => rfl
  | cons entry entries ih =>
    rw [List.forall_mem_cons] at h
    have hfinal := VariableEntry.finalize?_eq_some_iff.mpr ⟨rfl, h.1⟩
    rw [List.map_cons, List.filterMap_cons_some hfinal, ih h.2]

/-- Finishing keeps the entries that can be finished, in their order. -/
theorem finalize_toArray (pending : List (VariableEntry LocationRange)) :
    (LocalVariableBuilder.mk pending.toArray).finalize.value
      = ⟨pending.filterMap VariableEntry.finalize?⟩ := rfl

/-! ## Writing and reading -/

/-- If a table is written with the indices of a pool, its known entries are sound in that pool. -/
theorem sound_of_encode (h : Filed pools) {indices : Indices}
    (hlaidOut : (pools tag).LaidOut indices) {table : LocalVariableTable} {written : Bytes}
    (hwrite : table.encode indices = .ok written)
    (hentries : ∀ entry ∈ table.entries, Known pools entry ∧ HasRanges entry)
    (hwell : ∀ entry ∈ table.entries, entry.type.WellFormed) :
    ∀ entry ∈ table.entries, entry.Sound (pools tag) := by
  intro entry hentry
  obtain ⟨hknown, hranges⟩ := hentries entry hentry
  obtain ⟨span, hspan⟩ := List.exists_mem_of_ne_nil _ hranges.1
  have hrow : (entry, span) ∈ table.rows :=
    List.mem_flatMap.mpr ⟨entry, hentry, List.mem_map_of_mem hspan⟩
  rw [LocalVariableTable.encode_eq] at hwrite
  obtain ⟨bytes, hbytes⟩ := exists_of_encodeCounted hwrite _ hrow
  -- The row was written with indices of its handles, so these are from this pool.
  obtain ⟨row, -, hname, hdescriptor, -⟩ := LocalVariableTable.encodeRowOf_eq_ok_iff.mp hbytes
  obtain ⟨_, hnameConstant⟩ := hlaidOut.exists_constant hname
  obtain ⟨_, hdescriptorConstant⟩ := hlaidOut.exists_constant hdescriptor
  have hleads := hknown.name_leads
  have hconstant := hknown.descriptor_eq
  rw [h.pool_eq hnameConstant] at hleads
  rw [h.pool_eq hdescriptorConstant] at hconstant
  exact {
    name_keeps := hleads.keeps
    descriptor_keeps := Pool.Leads.keeps ⟨_, hconstant, List.mem_singleton_self _⟩
    text_eq := Pool.text_of_constant hconstant
    wellFormed := hwell entry hentry
    ranges_ne := hranges.1
    range_lt := hranges.2 }

/-- **Local variable tables stay well formed.** Of any recording that rounds of steps lead to: each
entry of the table has ranges, and none is empty, so that the length of a row is at least one. A
builder, new or made of the table, is finalized to the entries of the table, then one for each
variable recorded that has a name and ranges all of which are decided, in the order in which they
were recorded. The table comes back from a builder. And if the class names in its types are well
formed and it is written with the indices of a pool, what was written is read without a row left
out, as the table with runs of entries about one variable joined, in which the same variables are
found. -/
theorem Reachable.tables_wellFormed (h : recording.Reachable) :
    (∀ entry ∈ recording.table.entries,
      entry.ranges ≠ [] ∧ ∀ span ∈ entry.ranges, span.start < span.stop)
    ∧ (∀ steps, ∃ kept,
      List.Forall₂
        (fun source entry => Recorded (run steps recording).pools source entry.reopened)
        ((recorded steps).filter fun source => source.2.isWritable) kept
      ∧ (run steps { recording with builder := .empty }).builder.finalize.value = ⟨kept⟩
      ∧ (run steps { recording with builder := recording.table.toBuilder }).builder.finalize.value
        = ⟨recording.table.entries ++ kept⟩)
    ∧ recording.table.toBuilder.finalize.value = recording.table
    ∧ ∀ tag indices written, (recording.pools tag).resolve = .ok indices →
      (∀ entry ∈ recording.table.entries, entry.type.WellFormed) →
      recording.table.encode indices = .ok written →
      (∃ notices, Quiet notices ∧ ∀ rest, (LocalVariableTable.read (recording.pools tag)).Reads
        (written ++ rest) recording.table.joined rest notices)
      ∧ ∀ slot address,
        (recording.table.joined.lookup slot address).map VariableEntry.subject
          = (recording.table.lookup slot address).map VariableEntry.subject := by
  have hsound := h.sound
  have hranges (entry : VariableEntry Span) (hentry : entry ∈ recording.table.entries) :=
    (hsound.table entry hentry).2
  have hkept := filterMap_reopened hranges
  refine ⟨hranges, fun steps => ?_, ?_, ?_⟩
  · obtain ⟨later, pending, -, -, hrecorded, hrun⟩ := exists_pending steps hsound.filed
    have hpools : (run steps recording).pools = later :=
      congrArg Recording.pools (hrun recording.builder recording.table)
    refine ⟨pending.filterMap VariableEntry.finalize?, ?_, ?_, ?_⟩
    · have hfinal := forall₂_finalize hrecorded
      rwa [filter_isWritable, ← hpools] at hfinal
    · rw [hrun]
      rfl
    · have hplaced : recording.table.toBuilder.pending.toList.map (place steps)
          = recording.table.entries.map VariableEntry.reopened := by
        rw [LocalVariableTable.toBuilder, List.toList_toArray, List.map_map]
        exact List.map_congr_left fun entry _ => place_reopened steps entry
      rw [hrun, hplaced, finalize_toArray, List.filterMap_append, hkept]
  · exact congrArg LocalVariableTable.mk hkept
  · intro tag indices written hresolve hwell hwrite
    have hlaidOut : (recording.pools tag).LaidOut indices :=
      ⟨(hsound.filed tag).1.valid, hresolve⟩
    have hentries := sound_of_encode hsound.filed hlaidOut hwrite hsound.table hwell
    have hjoined : recording.table.joined
        = ⟨LocalVariableTable.group recording.table.entries⟩ := by
      rw [LocalVariableTable.group_eq]
    rw [hjoined]
    exact ⟨(LocalVariableTable.rereads_read_self hlaidOut).reads _ hentries hwrite,
      fun slot address => LocalVariableTable.lookup_group hentries⟩

/-- Of a variable with a label in its range and one with an empty range, the first is kept, with the
label placed. -/
theorem tables_wellFormed_of_label :
    let steps : List Step := [
      .add ⟨0⟩ ⟨some "x", .base .int, 1, [⟨.fixed 0, .pending ⟨1⟩⟩]⟩,
      .add ⟨0⟩ ⟨some "y", .base .int, 2, [⟨.fixed 3, .fixed 3⟩]⟩,
      .resolve (Placement.initial.bind ⟨1⟩ 2)]
    ∃ entry, (run steps ⟨Pool.empty, .empty, ⟨[]⟩⟩).builder.finalize.value = ⟨[entry]⟩
      ∧ entry.slot = 1 ∧ entry.reopened.ranges = [⟨.fixed 0, .fixed 2⟩] := by
  intro steps
  have hfiled : Filed Pool.empty := fun tag => ⟨.empty tag, rfl⟩
  obtain ⟨kept, hrecorded, hnew, -⟩ :=
    (Reachable.tables_wellFormed (.start Pool.empty hfiled)).2.1 steps
  have hplaced : (Placement.initial.bind ⟨1⟩ 2).offset? ⟨1⟩ = some 2 :=
    Std.HashMap.getElem?_insert_self
  have hsources : (recorded steps).filter (fun source => source.2.isWritable)
      = [(⟨0⟩, ⟨some "x", .base .int, 1, [⟨.fixed 0, .fixed 2⟩]⟩)] := by
    simp [steps, recorded, Step.recorded, placeIn, placed, Step.place, Placement.resolveRange,
      Placement.resolve, hplaced, LocalVariable.isWritable, LocationRange.isDecided]
  rw [hsources] at hrecorded
  obtain ⟨entry, others, hentry, hothers, rfl⟩ := List.forall₂_cons_left_iff.mp hrecorded
  cases hothers
  exact ⟨entry, hnew, hentry.slot_eq, hentry.ranges_eq⟩

end Recording

end ClassFormat
