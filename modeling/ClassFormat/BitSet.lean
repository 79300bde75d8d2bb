/-!
# Sets of indices, packed in words

A `BitSet` is a finite set of indices, kept as 32-bit words with the most significant bit first:
index 0 is the high bit of the first word. Words that are missing count as zero. Two sets are equal
when they have the same indices, however much room they have, and `toList` gives the indices in
ascending order.

Indices and sizes are numbers without a bound. In 64 bits the sums of `wordsFor` and `insert` come
round for the last 31 sizes and the last index, for which there is no memory anyway.
-/

namespace ClassFormat

/-- A finite set of indices. -/
structure BitSet where
  words : Array UInt32

namespace BitSet

/-- Number of words that have room for `capacity` indices. -/
def wordsFor (capacity : Nat) : Nat := (capacity + 31) / 32

/-- The bit of an index within its word. -/
def mask (index : Nat) : UInt32 := 0x80000000 >>> UInt32.ofNat (index % 32)

/-- The empty set with room for at least `capacity` indices. -/
def withCapacity (capacity : Nat) : BitSet := ⟨Array.replicate (wordsFor capacity) 0⟩

/-- Indices from here on need more room. -/
def capacity (set : BitSet) : Nat := set.words.size * 32

/-- Whether an index is in the set. -/
def contains (set : BitSet) (index : Nat) : Bool :=
  match set.words[index / 32]? with
  | some word => word &&& mask index != 0
  | none => false

/-- The same set with room for at least `capacity` indices. -/
def reserve (set : BitSet) (capacity : Nat) : BitSet :=
  ⟨set.words ++ Array.replicate (wordsFor capacity - set.words.size) 0⟩

/-- Add an index. -/
def insert (set : BitSet) (index : Nat) : BitSet :=
  ⟨(set.reserve (index + 1)).words.modify (index / 32) (· ||| mask index)⟩

/-- Add an index, and say whether that changes its word. -/
def insertNew (set : BitSet) (index : Nat) : Bool × BitSet :=
  let before := (set.reserve (index + 1)).words[index / 32]?
  let set := set.insert index
  (before != set.words[index / 32]?, set)

/-- Add indices one after another, and say of each whether it is new. -/
def insertAllNew (set : BitSet) (indices : List Nat) : List Bool × BitSet :=
  let (news, set) := indices.foldl
    (fun (news, set) index =>
      let (isNew, set) := insertNew set index
      (isNew :: news, set))
    ([], set)
  (news.reverse, set)

/-- Add the indices of another set, whose room is made first. -/
def union (set other : BitSet) : BitSet :=
  ⟨(set.reserve other.capacity).words.mapIdx fun position word =>
    word ||| other.words.getD position 0⟩

/-- Add the indices of another set, and say whether any of them is new. -/
def unionNew (set other : BitSet) : Bool × BitSet :=
  let joined := set.union other
  (joined.words != (set.reserve other.capacity).words, joined)

/-- Whether two sets share an index. Two words do if what is in one or the other differs from what
is in just one of them. -/
def intersects (set other : BitSet) : Bool :=
  (set.words.zip other.words).any fun (word, word2) => word ||| word2 != word ^^^ word2

/-- Whether a set shares an index with another one, if there is another one. -/
def intersectsOption (set : BitSet) : Option BitSet → Bool
  | none => false
  | some other => set.intersects other

def isAllClear (set : BitSet) : Bool := set.words.all (· == 0)

/-- Whether every index there is room for is in the set. -/
def isAllSet (set : BitSet) : Bool := set.words.all (· == 0xFFFFFFFF)

/-- The indices of the set in ascending order. -/
def toList (set : BitSet) : List Nat := (List.range set.capacity).filter set.contains

/-- The words up to the last one that is not zero. They are the same for equal sets. -/
def significantWords (set : BitSet) : Array UInt32 := set.words.popWhile (· == 0)

instance : BEq BitSet where
  beq set other := set.significantWords == other.significantWords

instance : Hashable BitSet where
  hash set := hash set.significantWords

/-- The bits of a word, most significant first. -/
def wordDigits (word : UInt32) : List Char :=
  (List.range 32).map fun index => if word &&& mask index != 0 then '1' else '0'

/-- The bits of all words in brackets. -/
def render (set : BitSet) : String :=
  String.ofList ('[' :: set.words.toList.flatMap wordDigits ++ [']'])

/-- The indices in braces. -/
def describe (set : BitSet) : String :=
  "\x7b" ++ String.intercalate ", " (set.toList.map toString) ++ "\x7d"

end BitSet

end ClassFormat
