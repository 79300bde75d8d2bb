import ClassFormat.Class.Member
import ClassFormat.Version
/-!
# Class files

A class file is the magic number, a version, the pool of constants, and what the class is made of.
Every byte of a file that is read has a place in the class, so the class is written back as the same
bytes, unless something in it was of no use and left out with a notice.
-/

namespace ClassFormat

/-- A class or interface. -/
structure ClassFile where
  version : Version
  constants : Pool
  flags : ClassFlags
  thisClass : ClassId
  /-- Nothing for the root of the class hierarchy. -/
  superClass : Option ClassId
  interfaces : List ClassId
  fields : List Field
  methods : List Method
  attributes : List Attribute

namespace ClassFile

/-- First four bytes of a class file. -/
def magic : UInt32 := 0xCAFEBABE

/-- Name of the class in its internal form. -/
def name (file : ClassFile) : Except Error String := file.constants.className file.thisClass

/-- Name of the file the class was compiled from. -/
def sourceFile? (file : ClassFile) : Option String :=
  file.attributes.findSome? fun attr =>
    match attr.payload with
    | .sourceFile name => (file.constants.text name).toOption
    | _ => none

/-! ## Writing -/

/-- The bytes of the file. -/
def encode (file : ClassFile) : Except Error Bytes := do
  let (constants, indices) ← file.constants.encode
  let thisClass ← indices.encode file.thisClass.id
  let superClass ← indices.encodeOptionalClass file.superClass
  let interfaces ← encodeSequence (fun id => indices.encode id.id) file.interfaces
  let fields ← encodeSequence (Member.encode indices) file.fields
  let methods ← encodeSequence (Member.encode indices) file.methods
  let attributes ← encodeAttributes indices file.attributes
  return BigEndian.u32 magic ++ file.version.encode ++ constants ++ file.flags.encode
    ++ thisClass ++ superClass ++ interfaces ++ fields ++ methods ++ attributes

/-! ## Reading -/

/-- Everything behind the magic number, with a pool of the given tag. -/
def readContents (tag : PoolTag) : Reader ClassFile := do
  let version ← Version.read
  let constants ← Pool.read tag
  let flags ← AccessFlags.read
  let thisClass ← constants.readClass
  let superClass ← constants.readOptionalClass
  let interfaces ← Reader.sequence constants.readClass
  let fields ← Reader.sequence (Member.read constants)
  let methods ← Reader.sequence (Member.read constants)
  let attributes ← readAttributes constants
  return {
    version, constants, flags, thisClass, superClass, interfaces, fields, methods, attributes }

/-- Tell that a class was read, by its name. The name is looked up only if the notice is told. -/
def announce (verbosity : Verbosity) (file : ClassFile) : Reader Unit :=
  match verbosity with
  | .quiet => return ()
  | .verbose => do
    let name ← Reader.ofExcept file.name
    Reader.note (.readClass name file.version.render file.fields.length file.methods.length)

/-- A class, with a pool of the given tag. -/
def read (tag : PoolTag) (verbosity : Verbosity) : Reader ClassFile := do
  let number ← Reader.u32
  if number = magic then
    let file ← readContents tag
    announce verbosity file
    return file
  else Reader.fail (.badMagic number)

/-- The class whose file has exactly these bytes. -/
def parse (tag : PoolTag) (verbosity : Verbosity) (bytes : Bytes) :
    Noted (Except Error ClassFile) :=
  match read tag verbosity bytes with
  | ⟨.ok (file, []), notices⟩ => ⟨.ok file, notices⟩
  | ⟨.ok (_, rest), notices⟩ => ⟨.error (.trailingBytes rest.length), notices⟩
  | ⟨.error cause, notices⟩ => ⟨.error cause, notices⟩

end ClassFile

end ClassFormat
