import ClassFormat.Reader
/-!
# Number types by name

The numbers of the format are one, two, four or eight bytes wide, unsigned or in two's complement. A
`NumberType` is such a type as a value, for tools that are told the type of a number by its name, a
letter for the sign and the number of bits.
-/

namespace ClassFormat

/-- A type of numbers of a fixed width. -/
structure NumberType where
  isSigned : Bool
  /-- Number of bytes. -/
  width : Nat
deriving DecidableEq, Repr

namespace NumberType

/-- The types by name. -/
def all : List (String × NumberType) :=
  [("u8", ⟨false, 1⟩), ("u16", ⟨false, 2⟩), ("u32", ⟨false, 4⟩), ("u64", ⟨false, 8⟩),
    ("i8", ⟨true, 1⟩), ("i16", ⟨true, 2⟩), ("i32", ⟨true, 4⟩), ("i64", ⟨true, 8⟩)]

def ofName? (name : String) : Option NumberType := all.lookup name

/-- How many numbers of a type there are. -/
def size (type : NumberType) : Nat := 1 <<< (8 * type.width)

/-- The number of a type that has the same bytes as a number. -/
def wrap (type : NumberType) (n : Int) : Int :=
  if type.isSigned then n.bmod type.size else n % type.size

/-- The bytes of a number. -/
def encode (type : NumberType) (n : Int) : Bytes :=
  BigEndian.encode type.width (n % type.size).toNat

def read (type : NumberType) : Reader Int :=
  (fun n => type.wrap n) <$> Reader.number type.width

end NumberType

end ClassFormat
