import ClassFormat.Bytes
import ClassFormat.Error
/-!
# Files by path

Directories hold files and further directories by name. A path is a row of names between slashes,
and each name but the last one has to lead to a directory. A path that leads to a file stands for
that file, whatever its name. A path that leads to a directory stands for the class files below it;
a file is one if its name has the extension `class`. Any other path stands for nothing.

`lookup?_insert_self` and `lookup?_insert_of_ne` say that putting an entry under a name changes what
is found under that name, and nothing else.
-/

namespace ClassFormat.CommandLine

/-- What a directory holds, name by name. -/
inductive Directory where
  | empty
  | file (name : String) (content : Bytes) (others : Directory)
  | directory (name : String) (inner others : Directory)

/-- What a name stands for. -/
inductive Entry where
  | file (content : Bytes)
  | directory (inner : Directory)

/-- A file that was found, with its bytes or why they cannot be read. -/
structure FoundFile where
  path : String
  content : Except Error Bytes

/-- The greatest number of bytes in a path. A longer path leads nowhere. -/
def maxPathSize : Nat := 4095

/-- Whether a file name ends in `.class` behind at least one other character. -/
def isClassFileName (name : String) : Bool :=
  let ending := ".class".toList
  ending.length < name.toList.length && ending.isSuffixOf name.toList

/-- A path with a name behind it. -/
def extend (path name : String) : String :=
  if path.endsWith "/" then path ++ name else path ++ "/" ++ name

namespace Directory

/-! ## Entries -/

/-- The entry under a name. -/
def lookup? (name : String) : Directory → Option Entry
  | empty => none
  | file other content others => if other = name then some (.file content) else others.lookup? name
  | directory other inner others =>
    if other = name then some (.directory inner) else others.lookup? name

/-- An entry in front of others. -/
def cons (name : String) (entry : Entry) (others : Directory) : Directory :=
  match entry with
  | .file content => file name content others
  | .directory inner => directory name inner others

/-- Put an entry under a name, in place of what was there. -/
def insert (name : String) (entry : Entry) : Directory → Directory
  | empty => cons name entry empty
  | file other content others =>
    if other = name then cons name entry others else file other content (others.insert name entry)
  | directory other inner others =>
    if other = name then cons name entry others
    else directory other inner (others.insert name entry)

theorem lookup?_cons (name other : String) (entry : Entry) (others : Directory) :
    (cons other entry others).lookup? name
      = if other = name then some entry else others.lookup? name := by
  cases entry <;> rfl

theorem lookup?_insert_self (name : String) (entry : Entry) (here : Directory) :
    (here.insert name entry).lookup? name = some entry := by
  induction here with
  | empty => simp [insert, lookup?_cons]
  | file other content others ih =>
    by_cases h : other = name <;> simp [insert, h, lookup?_cons, lookup?, ih]
  | directory other inner others _ ih =>
    by_cases h : other = name <;> simp [insert, h, lookup?_cons, lookup?, ih]

theorem lookup?_insert_of_ne {name other : String} (h : other ≠ name) (entry : Entry)
    (here : Directory) : (here.insert other entry).lookup? name = here.lookup? name := by
  induction here with
  | empty => simp [insert, lookup?_cons, lookup?, h]
  | file found content others ih =>
    by_cases same : found = other
    · subst same; simp [insert, lookup?_cons, lookup?, h]
    · simp [insert, lookup?, same, ih]
  | directory found inner others _ ih =>
    by_cases same : found = other
    · subst same; simp [insert, lookup?_cons, lookup?, h]
    · simp [insert, lookup?, same, ih]

/-! ## Making files and directories -/

/-- The directory under a name, empty if there is none. -/
def inner (here : Directory) (name : String) : Directory :=
  match here.lookup? name with
  | some (.directory inner) => inner
  | _ => empty

/-- Change the directory at the end of some names, after making those on the way. -/
def changeAt (edit : Directory → Directory) : List String → Directory → Directory
  | [], here => edit here
  | name :: names, here => here.insert name (.directory (changeAt edit names (here.inner name)))

/-- The names that lead to a place from the top, the last one first. -/
abbrev Place := List String

/-- The place that a name leads to. -/
def Place.enter (place : Place) (name : String) : Place :=
  if name = "" ∨ name = "." then place
  else if name = ".." then place.tail
  else name :: place

/-- The places that a path leads to name by name, the last one first. -/
def placesAlong (path : String) : List Place :=
  (path.splitOn "/").foldl (fun places name => (places.headD []).enter name :: places) []

/-- Make the directories along a path. -/
def makeDirectories (top : Directory) (places : List Place) : Directory :=
  places.foldr (fun place => changeAt id place.reverse) top

/-- Make a file, after the directories on the way to it. -/
def makeFile (top : Directory) (path : String) (content : Bytes) : Directory :=
  match placesAlong path with
  | (name :: place) :: places =>
    (top.makeDirectories places).changeAt (insert name (.file content)) place.reverse
  | _ => top

/-- The files and then the directories with the given paths, and those on the way to them. A file
takes the place of an earlier one with its path. -/
def ofPaths (files : List (String × Bytes)) (directories : List String) : Directory :=
  let top := files.foldl (fun top (path, content) => top.makeFile path content) empty
  directories.foldl (fun top path => top.makeDirectories (placesAlong path)) top

/-! ## Finding files -/

/-- Where some names lead to: a file, or a directory with those around it, innermost first. -/
inductive Spot where
  | file (content : Bytes)
  | directory (here : Directory) (around : List Directory)

/-- Go on by a name. No name leads on from a file, or out of the top. -/
def Spot.enter? (spot : Spot) (name : String) : Option Spot :=
  match spot with
  | .file _ => none
  | .directory here around =>
    if name = "" ∨ name = "." then some spot
    else if name = ".." then
      match around with
      | [] => none
      | outer :: around => some (.directory outer around)
    else
      match here.lookup? name with
      | none => none
      | some (.file content) => some (.file content)
      | some (.directory inner) => some (.directory inner (here :: around))

/-- Where a path leads to. -/
def follow? (top : Directory) (path : String) : Option Spot :=
  if path.startsWith "/" ∨ maxPathSize < path.utf8ByteSize then none
  else (path.splitOn "/").foldlM Spot.enter? (.directory top [])

/-- The class files in a directory and below, with their paths. -/
def classFiles (path : String) : Directory → List FoundFile
  | empty => []
  | file name content others =>
    let found := extend path name
    if isClassFileName name && found.utf8ByteSize ≤ maxPathSize then
      ⟨found, .ok content⟩ :: others.classFiles path
    else others.classFiles path
  | directory name inner others =>
    inner.classFiles (extend path name) ++ others.classFiles path

/-- The files that some paths stand for, with their own paths. -/
def find (top : Directory) (paths : List String) : List FoundFile :=
  paths.flatMap fun path =>
    match top.follow? path with
    | none => []
    | some (.file content) => [⟨path, .ok content⟩]
    | some (.directory here _) => here.classFiles path

end Directory

end ClassFormat.CommandLine
