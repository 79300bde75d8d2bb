import ClassFormat.Class.Histogram
import ClassFormat.Outline.Attribute
/-!
# Outlines of members and classes

A class is shown with its pool and all its parts. Names and types that cannot be told are shown by
the cause.
-/

namespace ClassFormat

/-- The bits of flags, their bytes and their names. -/
def AccessFlags.outline {carrier : FlagCarrier} (flags : AccessFlags carrier) : Outline :=
  .record [("bits", flags.bits), ("hex", .ofBytes flags.encode), ("names", flags.render)]

/-- What a byte stands for as an opcode, as a kind of method handle and as the tag of an annotation
element. -/
def Outline.ofByte (byte : UInt8) : Outline :=
  .record
    (("handle", .ofExcept (fun kind => kind.name) (HandleKind.ofNumber byte))
      :: ("element_constant",
        .ofOption (fun (tag : UInt8) => tag) (ElementValue.constantTag byte))
      :: Opcode.outlineFields ⟨byte⟩)

/-- The numbers of a version, its bytes and its text. -/
def Version.outlineFields (version : Version) : List (String × Outline) :=
  [("text", version.render), ("hex", .ofBytes version.encode), ("major", version.major),
    ("minor", version.minor)]

def Member.outlineFields {carrier : FlagCarrier} (view : ConstantView) (part : Member carrier) :
    List (String × Outline) :=
  [("access", part.flags.bits), ("name", view part.name.id),
    ("descriptor", view part.descriptor.id), ("attributes", attributesOutline view part.attributes)]

def Field.outline (pool : Pool) (view : ConstantView) (part : Field) : Outline :=
  .record (Member.outlineFields view part ++
    [("constant_value", .ofOption view (Field.constantValue? part)),
      ("type", .ofExcept FieldType.outline (Field.type pool part))])

def Method.outline (pool : Pool) (view : ConstantView) (part : Method) : Outline :=
  .record (Member.outlineFields view part ++
    [("code_length", .ofOption (fun body => body.bytes.length) (Method.code? part)),
      ("exceptions", .ofOption (fun classes => classes.length) (Method.exceptions? part)),
      ("type", .ofExcept MethodType.outline (Method.type pool part))])

def ClassFile.outlineFields (file : ClassFile) : List (String × Outline) :=
  let pool := file.constants
  let view := pool.view
  [("version", file.version.render), ("constants", pool.outline), ("access", file.flags.bits),
    ("this", view file.thisClass.id),
    ("super", .ofOption (fun id => view id.id) file.superClass),
    ("interfaces", .ofList (fun id => view id.id) file.interfaces),
    ("fields", .ofList (Field.outline pool view) file.fields),
    ("methods", .ofList (Method.outline pool view) file.methods),
    ("attributes", attributesOutline view file.attributes),
    ("name", .ofExcept Outline.text file.name),
    ("source_file", .ofOption Outline.text file.sourceFile?)]

/-- A histogram as text and opcode by opcode. -/
def Histogram.outline (histogram : Histogram) : Outline :=
  let item : Opcode × Bool × Nat → Outline := fun (opcode, isWide, count) =>
    .list [opcode.byte, isWide, count]
  .record [("text", histogram.render), ("items", .ofList item histogram.toList)]

end ClassFormat
