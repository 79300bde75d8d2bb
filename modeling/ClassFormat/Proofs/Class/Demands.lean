import ClassFormat.Proofs.Attribute.Demands
import ClassFormat.Proofs.Class.Rewriting
import ClassFormat.Proofs.Pool.RoundTrip
/-!
# When a class is written

A class is written exactly if its pool is and all its demands are met, those of its members and of
its attributes at any depth included. So nothing that is written was cut short to fit a field or
mentions a constant of another pool, and nothing is refused but for one of these reasons.
-/

namespace ClassFormat

open Demand (Decide Govern)
open Layout (totalWidth)

/-- What a member asks for, with its attributes at any depth. -/
def Member.demands {carrier : FlagCarrier} (part : Member carrier) : List Demand :=
  .handle part.name.id :: .handle part.descriptor.id :: .count part.attributes.length
    :: part.attributes.flatMap Attribute.allDemands

/-- A member is written exactly if what its parts demand is met. -/
theorem Member.govern_encode {carrier : FlagCarrier} {indices : Indices}
    {Tables : LocalVariableTable → Prop} {part : Member carrier}
    (htables : ∀ attr ∈ part.attributes, ∀ nested ∈ attr.withNested,
      nested.payload.TableIs Tables) :
    Govern indices Tables part.demands (part.encode indices) := by
  rw [encode_eq]
  refine (Govern.ok _).append ?_
  refine (Govern.handle part.name.id).append ?_
  refine (Govern.handle part.descriptor.id).append ?_
  exact govern_encodeAttributes htables

namespace ClassFile

variable {file : ClassFile}

/-- What a class asks for, its pool apart. -/
def demands (file : ClassFile) : List Demand :=
  .handle file.thisClass.id :: (file.superClass.toList.map fun id => .handle id.id)
    ++ .count file.interfaces.length :: (file.interfaces.map fun id => .handle id.id)
    ++ .count file.fields.length :: file.fields.flatMap Member.demands
    ++ .count file.methods.length :: file.methods.flatMap Member.demands
    ++ .count file.attributes.length :: file.attributes.flatMap Attribute.allDemands

/-- What a class has to be to be written. -/
structure Encodable (file : ClassFile) : Prop where
  /-- The constants take at most as many indices as there are. -/
  room : totalWidth file.constants.constants ≤ 65534
  texts : ∀ constant ∈ file.constants.constants, constant.textLength ≤ 65535
  handles : ∀ id, .handle id ∈ file.demands → file.constants.owns id = true
  counts : ∀ length, .count length ∈ file.demands → length ≤ 65535
  shortCounts : ∀ length, .shortCount length ∈ file.demands → length ≤ 255
  codeLengths : ∀ length, .codeLength length ∈ file.demands → length ≤ 65535
  locations : ∀ place, .location place ∈ file.demands → ∃ offset ≤ 65535, place = .fixed offset
  spans : ∀ range, .span range ∈ file.demands →
    range.start ≤ 65535 ∧ range.stop - range.start - 1 ≤ 65535
  payloads : ∀ length, .payload length ∈ file.demands → length < 2 ^ 32

/-- A class can be written if its pool can be, and all demands of its parts are met. -/
theorem encodable_iff : file.Encodable
    ↔ file.constants.Writable ∧ ∀ demand ∈ file.demands, demand.Met file.constants := by
  constructor
  · intro h
    refine ⟨⟨h.room, h.texts⟩, fun demand hdemand => ?_⟩
    cases demand with
    | handle id => exact h.handles id hdemand
    | count length => exact h.counts length hdemand
    | shortCount length => exact h.shortCounts length hdemand
    | codeLength length => exact h.codeLengths length hdemand
    | location place => exact h.locations place hdemand
    | span range => exact h.spans range hdemand
    | payload length => exact h.payloads length hdemand
  · rintro ⟨hpool, hmet⟩
    exact {
      room := hpool.room
      texts := hpool.texts
      handles := fun _ hdemand => hmet _ hdemand
      counts := fun _ hdemand => hmet _ hdemand
      shortCounts := fun _ hdemand => hmet _ hdemand
      codeLengths := fun _ hdemand => hmet _ hdemand
      locations := fun _ hdemand => hmet _ hdemand
      spans := fun _ hdemand => hmet _ hdemand
      payloads := fun _ hdemand => hmet _ hdemand }

/-- What stands behind the pool is written exactly if what its parts demand is met. -/
theorem govern_encodeParts {indices : Indices} {Tables : LocalVariableTable → Prop}
    (htables : ∀ attr ∈ file.allAttributes, attr.payload.TableIs Tables) :
    Govern indices Tables file.demands (encodeParts indices file.parts) := by
  rw [allAttributes, forall_mem_attributesWithNested_iff, List.forall_mem_append,
    List.forall_mem_append, List.forall_mem_flatMap, List.forall_mem_flatMap] at htables
  obtain ⟨⟨hfields, hmethods⟩, hattributes⟩ := htables
  simp only [demands, List.append_assoc, List.cons_append]
  refine (Govern.ok _).append ?_
  refine (Govern.handle file.thisClass.id).append ?_
  refine (Govern.optionalClass file.superClass).append ?_
  refine Govern.handles.append ?_
  refine (Govern.counted fun field hfield => ?_).append ?_
  · exact Member.govern_encode (hfields field hfield)
  refine (Govern.counted fun method hmethod => ?_).append ?_
  · exact Member.govern_encode (hmethods method hmethod)
  exact govern_encodeAttributes hattributes

/-- Whether what stands behind the pool can be written is decided by the pool. -/
theorem decide_encodeParts {indices : Indices} (h : file.constants.LaidOut indices)
    (hmade : ∀ attr ∈ file.allAttributes, attr.payload.TableIs LocalVariableTable.Made) :
    Decide file.constants file.demands (encodeParts indices file.parts) :=
  (govern_encodeParts hmade).decide h

/-- **A class is written exactly if nothing in it has to be cut short and no handle is foreign.**
This is said of any class over a pool that came about by operations, with handles of whatever pools,
and with tables of local variables that finalizing or reading made. -/
theorem encodes_iff_encodable (hpool : file.constants.Reachable)
    (hmade : ∀ attr ∈ file.allAttributes, ∀ table,
      attr.payload = .localVariables table → table.Made) :
    (∃ written, file.encode = .ok written) ↔ file.Encodable := by
  have htyped := hpool.builtFor.typedFor
  have hlaid {poolBytes : Bytes} {indices : Indices}
      (hencode : file.constants.encode = .ok (poolBytes, indices)) :
      file.constants.LaidOut indices :=
    ⟨htyped.valid, (htyped.valid.encode_eq_ok_iff.mp hencode).1⟩
  rw [encodable_iff, ← htyped.exists_encode_iff, encode_eq]
  constructor
  · rintro ⟨written, hwritten⟩
    obtain ⟨⟨poolBytes, indices⟩, hencode, hrest⟩ := bind_eq_ok_iff.mp hwritten
    obtain ⟨-, partsBytes, -, hparts, -⟩ := appendWritten_eq_ok_iff.mp hrest
    have hmet := (decide_encodeParts (hlaid hencode) hmade).mp ⟨partsBytes, hparts⟩
    exact ⟨⟨poolBytes, indices, hencode⟩, hmet⟩
  · rintro ⟨⟨poolBytes, indices, hencode⟩, hmet⟩
    obtain ⟨partsBytes, hparts⟩ := (decide_encodeParts (hlaid hencode) hmade).mpr hmet
    have hwhole : appendWritten (.ok (BigEndian.u32 magic ++ file.version.encode ++ poolBytes))
        (encodeParts indices file.parts) = .ok _ :=
      appendWritten_eq_ok_iff.mpr ⟨_, partsBytes, rfl, hparts, rfl⟩
    exact ⟨_, bind_eq_ok_iff.mpr ⟨_, hencode, hwhole⟩⟩

/-- A class with an empty table of local variables is written, but no longer once it has an
interface of another pool. -/
theorem encodes_iff_encodable_interface : ∃ file other : ClassFile,
    other = { file with interfaces := [⟨⟨⟨1⟩, 1⟩⟩] }
    ∧ (∃ written, file.encode = .ok written) ∧ ¬ ∃ written, other.encode = .ok written := by
  have hmade : ∀ attr ∈ attributesWithNested [⟨⟨⟨⟨0⟩, 0⟩⟩,
      .localVariables LocalVariableBuilder.empty.finalize.value⟩],
      ∀ table, attr.payload = .localVariables table → table.Made := by
    intro attr hattr table htable
    obtain rfl := List.mem_singleton.mp hattr
    cases htable
    exact .inl ⟨_, rfl⟩
  refine ⟨ofParts .java8 (.ofRead ⟨0⟩ [.utf8 "A", .classInfo ⟨⟨⟨0⟩, 0⟩⟩])
    (⟨0⟩, ⟨⟨⟨0⟩, 1⟩⟩, none, [], [], [],
      [⟨⟨⟨⟨0⟩, 0⟩⟩, .localVariables LocalVariableBuilder.empty.finalize.value⟩]), _, rfl, ?_, ?_⟩
  · have hpool := Pool.resolves_named.reachable
    refine (encodes_iff_encodable hpool ?_).mpr (encodable_iff.mpr ⟨⟨?_, ?_⟩, ?_⟩)
    · exact hmade
    · decide
    · decide
    · decide
  · intro hwritten
    have hfile := (encodes_iff_encodable ?reachable ?made).mp hwritten
    case reachable => exact Pool.resolves_named.reachable
    case made => exact hmade
    have howns := hfile.handles ⟨⟨1⟩, 1⟩ (by simp [demands])
    cases howns

end ClassFile

end ClassFormat
