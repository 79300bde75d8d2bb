import ClassFormat.Reader
/-!
# Versions of the format

A class file says which version of the format it follows. The minor number comes first in the file,
and the major number first in comparisons.
-/

namespace ClassFormat

/-- Version of the class file format. -/
structure Version where
  major : UInt16
  minor : UInt16
deriving DecidableEq, Repr

namespace Version

/-- Version of Java SE 8. -/
def java8 : Version := ⟨52, 0⟩

/-- Version of Java SE 11. -/
def java11 : Version := ⟨55, 0⟩

/-- The major number decides, then the minor one. -/
def compare (version other : Version) : Ordering :=
  (Ord.compare version.major other.major).then (Ord.compare version.minor other.minor)

instance : Ord Version := ⟨Version.compare⟩

def render (version : Version) : String := s!"{version.major}.{version.minor}"

def encode (version : Version) : Bytes :=
  BigEndian.u16 version.minor ++ BigEndian.u16 version.major

def read : Reader Version := do
  let minor ← Reader.u16
  let major ← Reader.u16
  return ⟨major, minor⟩

end Version

end ClassFormat
