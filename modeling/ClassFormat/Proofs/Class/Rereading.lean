import ClassFormat.Proofs.Class.Rewriting
/-!
# Reading a class that was written

A sound class that was written can be read again. The class that is read has the same constants at
the same indices, and everything else in it mentions the same indices; only neighbouring entries of
a table about the same variable become one. So it is written as the same bytes.
-/

namespace ClassFormat

namespace ClassFile

variable {tag : PoolTag} {file : ClassFile} {written : Bytes}

/-- A class over another pool, with its handles replaced and the rows of its tables joined. -/
def mapJoined (replace : ConstantId → ConstantId) (constants : Pool) (file : ClassFile) :
    ClassFile where
  version := file.version
  constants := constants
  flags := file.flags
  thisClass := ⟨replace file.thisClass.id⟩
  superClass := file.superClass.map fun id => ⟨replace id.id⟩
  interfaces := file.interfaces.map fun id => ⟨replace id.id⟩
  fields := file.fields.map (Member.mapJoined replace)
  methods := file.methods.map (Member.mapJoined replace)
  attributes := file.attributes.map (Attribute.mapJoined replace)

/-- Parts that were written are read as the same ones, with handles of the other pool. -/
theorem rereads_readParts {pool again : Pool} {indices later : Indices}
    (h : again.Mirrors indices later pool) (version : Version) :
    (readParts again).Rereads (fun parts => (ofParts version pool parts).Sound)
      (encodeParts indices) (fun parts =>
        ((ofParts version pool parts).mapJoined (again.counterpart indices) again).parts) := by
  have hclass := h.rereads_readClass
  have hfields : (Member.read again : Reader Field).Rereads _ _ _ := Member.rereads_read h
  have hmethods : (Member.read again : Reader Method).Rereads _ _ _ := Member.rereads_read h
  have hparts := (Reader.takes_flags .ofClass).rereads_self.pair (hclass.pair
    (h.rereads_readOptionalClass.pair ((hclass.sequence .sequenceLength).pair
      ((hfields.sequence .sequenceLength).pair ((hmethods.sequence .sequenceLength).pair
        (rereads_readAttributes h))))))
  constructor
  intro parts written hsound hwrite
  exact hparts.reads parts ⟨trivial, hsound.thisClass, hsound.superClass, hsound.interfaces,
    hsound.fields, hsound.methods, hsound.attributes⟩ hwrite

/-- A class that was written has instructions that fit the format. -/
theorem codeFits_of_encodeParts {indices : Indices}
    (hwrite : encodeParts indices file.parts = .ok written) : file.CodeFits := by
  simp only [encodeParts, appendWritten_eq_ok_iff] at hwrite
  obtain ⟨-, -, -, ⟨-, -, -, ⟨-, -, -, ⟨-, _, -, hmembers, -⟩, -⟩, -⟩, -⟩ := hwrite
  obtain ⟨_, -, hfields, ⟨_, _, hmethods, hattributes, -⟩, -⟩ := hmembers
  refine codeFits_iff.mpr ⟨fun field hfield => ?_, fun method hmethod => ?_, ?_⟩
  · exact Member.attributesFit_of_encode (exists_of_encodeCounted hfields field hfield)
  · exact Member.attributesFit_of_encode (exists_of_encodeCounted hmethods method hmethod)
  · exact attributesFit_of_encode hattributes

/-- Replacing handles and joining rows does not touch instructions. -/
theorem codeFits_mapJoined {replace : ConstantId → ConstantId} {constants : Pool}
    (h : file.CodeFits) : (file.mapJoined replace constants).CodeFits := by
  obtain ⟨hfields, hmethods, hattributes⟩ := codeFits_iff.mp h
  exact codeFits_iff.mpr
    ⟨List.forall_mem_map.mpr fun field hfield => attributesFit_map (hfields field hfield),
      List.forall_mem_map.mpr fun method hmethod => attributesFit_map (hmethods method hmethod),
      attributesFit_map hattributes⟩

/-- What a sound class was written as is read as a class over a pool that mirrors its own. -/
theorem exists_reread (hreachable : file.constants.Reachable) (hsound : file.Sound)
    (hencode : file.encode = .ok written) (tag : PoolTag) :
    ∃ constants indices later notices, file.constants.resolve = .ok indices
      ∧ constants.Mirrors indices later file.constants ∧ Quiet notices
      ∧ parse tag .quiet written
        = ⟨.ok (file.mapJoined (constants.counterpart indices) constants), notices⟩ := by
  rw [encode_eq, bind_eq_ok_iff] at hencode
  obtain ⟨⟨poolBytes, indices⟩, hpool, hrest⟩ := hencode
  obtain ⟨_, partsBytes, hheader, hparts, rfl⟩ := appendWritten_eq_ok_iff.mp hrest
  cases hheader
  obtain ⟨constants, later, poolNoted, hmirrors, hpoolQuiet, hpoolReads⟩ :=
    Pool.exists_reread hreachable.valid hsound.constants hpool tag
  obtain ⟨noted, hquiet, hpartsReads⟩ :=
    (rereads_readParts hmirrors file.version).reads file.parts hsound hparts
  refine ⟨constants, indices, later, poolNoted ++ noted, hmirrors.before.resolve_eq, hmirrors,
    quiet_append.mpr ⟨hpoolQuiet, hquiet⟩, ?_⟩
  have hlast := hpartsReads []
  rw [List.append_nil] at hlast
  rw [List.append_assoc]
  exact parse_of_reads file.version (hpoolReads _) hlast

/-- **What was written is read as the same class.** This holds of every class that was read, and of
every class that was built, over a pool that was built, from sound parts. The same constants are at
the same indices, and all else is the same but for handles, which are those on the same indices, and
for neighbouring entries of a table about the same variable, which become one. -/
theorem parse_of_encode
    (hfile : (∃ tag verbosity bytes notices, parse tag verbosity bytes = ⟨.ok file, notices⟩)
      ∨ file.constants.Reachable ∧ file.Sound)
    (hencode : file.encode = .ok written) (tag : PoolTag) :
    ∃ again notices indices later, parse tag .quiet written = ⟨.ok again, notices⟩ ∧ Quiet notices
      ∧ file.constants.resolve = .ok indices ∧ again.constants.resolve = .ok later
      ∧ (∀ index, again.constants.rawAt later index = file.constants.rawAt indices index)
      ∧ (∀ id index, indices.indexOf id = .ok index →
        later.indexOf (again.constants.counterpart indices id) = .ok index)
      ∧ again = file.mapJoined (again.constants.counterpart indices) again.constants
      ∧ again.encode = .ok written := by
  have hsound : file.constants.Reachable ∧ file.Sound := by
    rcases hfile with ⟨before, verbosity, bytes, noted, hparse⟩ | hsound
    · obtain ⟨hreachable, hsound, -⟩ := rewritten_of_parse hparse
      exact ⟨hreachable, hsound⟩
    · exact hsound
  obtain ⟨constants, indices, later, notices, hresolve, hmirrors, hquiet, hparse⟩ :=
    exists_reread hsound.1 hsound.2 hencode tag
  refine ⟨_, notices, indices, later, hparse, hquiet, hresolve, hmirrors.after.resolve_eq,
    hmirrors.rawAt_eq, fun id index hindex => hmirrors.indexOf_counterpart hindex, rfl, ?_⟩
  -- What was written fits, and joining rows does not touch code: so it is written as those bytes.
  have hfits : file.CodeFits := by
    rw [encode_eq, bind_eq_ok_iff] at hencode
    obtain ⟨⟨poolBytes, indices⟩, -, hrest⟩ := hencode
    obtain ⟨-, partsBytes, -, hparts, -⟩ := appendWritten_eq_ok_iff.mp hrest
    exact codeFits_of_encodeParts hparts
  obtain ⟨-, -, hrewritten⟩ := rewritten_of_parse hparse
  obtain ⟨bytes, hbytes, -, hiff⟩ := hrewritten.of_fits (codeFits_mapJoined hfits)
  rw [hbytes, hiff.mpr hquiet]

/-- A class that was built with two neighbouring entries about the same variable is read with one of
both. And a class that lost a row when it was read is read again without a loss. -/
theorem parse_of_encode_of_rows :
    (∃ (again : ClassFile) (notices : List Notice),
      parse ⟨1⟩ .quiet (methodFile 1) = ⟨.ok again, notices⟩ ∧ Quiet notices
      ∧ again.version = .java8 ∧ again.superClass = none
      ∧ again.methods.map (fun method => (method.code? >>= Code.localVariables?).map fun table =>
          table.entries.map VariableEntry.ranges) = [some [[⟨0, 2⟩, ⟨3, 5⟩]]]
      ∧ again.encode = .ok (methodFile 1))
    ∧ ∃ (file again : ClassFile) (before notices : List Notice) (written : Bytes),
      parse ⟨0⟩ .quiet (methodFile 0) = ⟨.ok file, before⟩
      ∧ .droppedRow 0 (.invalidConstantIndex 0) ∈ before ∧ file.encode = .ok written
      ∧ parse ⟨1⟩ .quiet written = ⟨.ok again, notices⟩ ∧ Quiet notices
      ∧ again.encode = .ok written := by
  constructor
  · have hsound : (ofParts .java8 (.ofRead ⟨0⟩ methodConstants)
        (methodParts [methodVariable [⟨0, 2⟩], methodVariable [⟨3, 5⟩]])).Sound := by
      refine sound_methodParts (List.forall_mem_cons.mpr ⟨?_, List.forall_mem_singleton.mpr ?_⟩)
      · exact sound_methodVariable (by decide) (by decide)
      · exact sound_methodVariable (by decide) (by decide)
    have hencode : (ofParts .java8 (.ofRead ⟨0⟩ methodConstants)
        (methodParts [methodVariable [⟨0, 2⟩], methodVariable [⟨3, 5⟩]])).encode
        = .ok (methodFile 1) := rfl
    obtain ⟨again, notices, _, _, hparse, hquiet, -, -, -, -, hagain, hwritten⟩ :=
      parse_of_encode (.inr ⟨resolves_methodRaws.reachable, hsound⟩) hencode ⟨1⟩
    refine ⟨again, notices, hparse, hquiet, congrArg version hagain, congrArg superClass hagain,
      ?_, hwritten⟩
    -- Whatever the handles are replaced by, both entries are about the same variable.
    have hjoined (replace : ConstantId → ConstantId) :
        LocalVariableTable.group ([methodVariable [⟨0, 2⟩], methodVariable [⟨3, 5⟩]].map
          (VariableEntry.mapHandles replace))
        = [(methodVariable [⟨0, 2⟩, ⟨3, 5⟩]).mapHandles replace] := by
      simp [LocalVariableTable.group, LocalVariableTable.joinRow, VariableEntry.isSameVariable,
        methodVariable, VariableEntry.mapHandles]
    rw [congrArg methods hagain]
    show [some ((LocalVariableTable.group (List.map _ _)).map VariableEntry.ranges)] = _
    rw [hjoined]
    rfl
  · have hparts : (readParts (.ofRead ⟨0⟩ methodConstants)).Reads (methodBytes 0)
        (methodParts [methodVariable [⟨0, 2⟩]]) [] [.droppedRow 0 (.invalidConstantIndex 0)] := rfl
    obtain ⟨before, -, hparse⟩ := parse_methodFile hparts
    obtain ⟨-, -, hrewritten⟩ := rewritten_of_parse hparse
    obtain ⟨written, hwritten, -, -⟩ := hrewritten.of_fits (codeFits_methodParts _)
    obtain ⟨again, notices, _, _, hagain, hquiet, -, -, -, -, -, hencode⟩ :=
      parse_of_encode (.inl ⟨_, _, _, _, hparse⟩) hwritten ⟨1⟩
    exact ⟨_, again, _, notices, written, hparse,
      List.mem_append_right before (List.mem_singleton_self _), hwritten, hagain, hquiet, hencode⟩

end ClassFile

end ClassFormat
