import ClassFormat.Proofs.Class.DecodedHandles
import ClassFormat.Proofs.Class.Rewriting
import ClassFormat.Proofs.Instruction.Tiling
/-!
# Code of classes

A file states the length of code in 32 bits. So whatever is read as the code of a method is a code
array, however deep the attributes around it are nested (`ClassFile.hasCodeArrays_of_parse`), and
what is found in it are the answers of a walk (`ClassFile.HasCodeArrays.runs`). Only a class that
was put together by hand may have more bytes than that.
-/

namespace ClassFormat

/-- The code of a payload, if it is one, is a code array. -/
def Payload.HasCodeArray (payload : Payload) : Prop :=
  ∀ body, payload = .code body → IsCodeArray body.bytes

/-- The code of each method is a code array. -/
def ClassFile.HasCodeArrays (file : ClassFile) : Prop :=
  ∀ method ∈ file.methods, ∀ body ∈ method.code?, IsCodeArray body.bytes

instance (file : ClassFile) : Decidable file.HasCodeArrays :=
  inferInstanceAs (Decidable (∀ method ∈ file.methods, ∀ body ∈ method.code?,
    IsCodeArray body.bytes))

variable {pool : Pool}

/-! ## Code that is read -/

/-- The length in front of the code has 32 bits. -/
theorem Code.gives_isCodeArray {nested : Reader Attribute} :
    (Code.read pool nested).Gives fun body => IsCodeArray body.bytes := by
  refine .behind fun maxStack => .behind fun maxLocals => .behind fun length => ?_
  have hblock : (Reader.block length.toNat).Gives IsCodeArray := by
    intro input bytes rest notices hreads
    obtain ⟨-, hlength, -⟩ := Reader.reads_block.mp hreads
    rw [IsCodeArray, hlength]
    exact length.toNat_lt
  exact .bind hblock fun bytes hbytes => .behind fun _ => .behind fun _ => .pure hbytes

/-- Only the payload of one kind is code. -/
theorem Payload.gives_hasCodeArray {nested : Reader Attribute} (kind : AttributeKind) :
    (Payload.read pool nested kind).Gives Payload.HasCodeArray := by
  cases kind with
  | code =>
    refine .map Code.gives_isCodeArray fun body hbody other heq => ?_
    obtain rfl : body = other := Payload.code.inj heq
    exact hbody
  | _ => exact .map (.any _) fun _ _ => nofun

/-- The length of code is read as 32 bits, so an attribute that was read has no more code than that.
-/
theorem Attribute.gives_hasCodeArray (pool : Pool) :
    (Attribute.read pool).Gives fun attr => attr.payload.HasCodeArray := by
  refine .behind fun name => .behind fun length => .behind fun data => .behind fun text => ?_
  split
  · exact .bind (.within (Payload.gives_hasCodeArray _)) fun payload hpayload => .pure hpayload
  · exact .behind fun _ => .pure nofun

/-- So it is for all attributes of a member that was read. -/
theorem Member.gives_hasCodeArrays {carrier : FlagCarrier} (pool : Pool) :
    (Member.read pool : Reader (Member carrier)).Gives fun part =>
      ∀ attr ∈ part.attributes, attr.payload.HasCodeArray :=
  .behind fun _ => .behind fun _ => .behind fun _ =>
    .bind (.sequence (Attribute.gives_hasCodeArray pool)) fun _ hattributes => .pure hattributes

/-- The body of a method is the code of one of its attributes. -/
theorem Method.exists_of_code?_eq_some {method : Method} {body : Code}
    (h : method.code? = some body) : ∃ attr ∈ method.attributes, attr.payload = .code body := by
  obtain ⟨attr, hmem, hattr⟩ := List.exists_of_findSome?_eq_some h
  refine ⟨attr, hmem, ?_⟩
  cases hpayload : attr.payload with
  | code other =>
    rw [hpayload] at hattr
    exact congrArg _ (Option.some.inj hattr)
  | _ =>
    rw [hpayload] at hattr
    cases hattr

namespace ClassFile

/-- Whatever is read as the code of a method is a code array. -/
theorem gives_hasCodeArrays (tag : PoolTag) (verbosity : Verbosity) :
    (ClassFile.read tag verbosity).Gives HasCodeArrays := by
  have hcontents : (readContents tag).Gives HasCodeArrays := by
    refine .behind fun version => .behind fun pool => .behind fun flags => .behind fun this =>
      .behind fun super => .behind fun interfaces => .behind fun fields => ?_
    refine .bind (.sequence (Member.gives_hasCodeArrays pool)) fun methods hmethods => ?_
    refine .behind fun attributes => .pure fun method hmem body hbody => ?_
    obtain ⟨attr, hattr, hcode⟩ := Method.exists_of_code?_eq_some hbody
    exact hmethods method hmem attr hattr body hcode
  refine .behind fun number => ?_
  split
  · exact .bind hcontents fun file hfile => .behind fun _ => .pure hfile
  · exact .fail _

/-- All code in a class that was parsed can be addressed. -/
theorem hasCodeArrays_of_parse {tag : PoolTag} {verbosity : Verbosity} {bytes : Bytes}
    {file : ClassFile} {notices : List Notice}
    (h : parse tag verbosity bytes = ⟨.ok file, notices⟩) : file.HasCodeArrays :=
  gives_hasCodeArrays tag verbosity (parse_eq_ok_iff.mp h)

/-- What is found in the code of a method are the answers of a walk over it. -/
theorem HasCodeArrays.runs {file : ClassFile} (h : file.HasCodeArrays) {method : Method}
    (hmem : method ∈ file.methods) {body : Code} (hbody : body ∈ method.code?) :
    let found := disassemble file.constants body.bytes
    (Walk.start body.bytes).Runs file.constants found.instructions found.failure found.stop :=
  runs_disassemble file.constants (h method hmem body hbody)

end ClassFile

end ClassFormat
