import ClassFormat.Reader
/-!
# Access flags

Classes, methods, fields and method parameters carry sixteen flag bits, some of which have names.
What a bit means depends on what carries it, so the flags of different carriers have different
types. Bits without a name are kept: a file with such bits is written back as it was.
-/

namespace ClassFormat

/-- What carries access flags. -/
inductive FlagCarrier where
  | ofClass
  | ofMethod
  | ofField
  | ofParameter
deriving DecidableEq, Repr

/-- The named flags of a carrier, each with its bit, in ascending order. -/
def FlagCarrier.named : FlagCarrier → List (String × UInt16)
  | ofClass =>
    [("PUBLIC", 0x0001), ("FINAL", 0x0010), ("SUPER", 0x0020), ("INTERFACE", 0x0200),
     ("ABSTRACT", 0x0400), ("SYNTHETIC", 0x1000), ("ANNOTATION", 0x2000), ("ENUM", 0x4000),
     ("MODULE", 0x8000)]
  | ofMethod =>
    [("PUBLIC", 0x0001), ("PRIVATE", 0x0002), ("PROTECTED", 0x0004), ("STATIC", 0x0008),
     ("FINAL", 0x0010), ("SYNCHRONIZED", 0x0020), ("BRIDGE", 0x0040), ("VARARGS", 0x0080),
     ("NATIVE", 0x0100), ("ABSTRACT", 0x0400), ("STRICT", 0x0800), ("SYNTHETIC", 0x1000)]
  | ofField =>
    [("PUBLIC", 0x0001), ("PRIVATE", 0x0002), ("PROTECTED", 0x0004), ("STATIC", 0x0008),
     ("FINAL", 0x0010), ("VOLATILE", 0x0040), ("TRANSIENT", 0x0080), ("SYNTHETIC", 0x1000),
     ("ENUM", 0x4000)]
  | ofParameter => [("FINAL", 0x0010), ("SYNTHETIC", 0x1000), ("MANDATED", 0x8000)]

/-- Flags of a carrier, named or not. -/
structure AccessFlags (carrier : FlagCarrier) where
  bits : UInt16
deriving DecidableEq, Repr

namespace AccessFlags

variable {carrier : FlagCarrier}

/-- Whether all of the given bits are set. -/
def hasAll (flags : AccessFlags carrier) (bits : UInt16) : Bool := flags.bits &&& bits == bits

/-- The bits that have no name. -/
def unnamed (flags : AccessFlags carrier) : UInt16 :=
  carrier.named.foldl (fun bits (_, bit) => bits &&& (0xFFFF ^^^ bit)) flags.bits

/-- The names of the set flags, and the bits without a name as one number. -/
def render (flags : AccessFlags carrier) : String :=
  let names := carrier.named.filterMap fun (name, bit) =>
    if flags.hasAll bit then some name else none
  let others := if flags.unnamed = 0 then [] else [Text.Hexadecimal.padded 1 flags.unnamed.toNat]
  match names ++ others with
  | [] => "(empty)"
  | shown => String.intercalate " | " shown

def encode (flags : AccessFlags carrier) : Bytes := BigEndian.u16 flags.bits

def read : Reader (AccessFlags carrier) := AccessFlags.mk <$> Reader.u16

end AccessFlags

abbrev ClassFlags := AccessFlags .ofClass
abbrev MethodFlags := AccessFlags .ofMethod
abbrev FieldFlags := AccessFlags .ofField
abbrev ParameterFlags := AccessFlags .ofParameter

end ClassFormat
