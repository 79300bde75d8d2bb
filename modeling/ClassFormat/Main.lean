import ClassFormat.CommandLine.Report
/-!
# The program

Finds the files that the arguments ask for, and shows the report on them.
-/

open ClassFormat ClassFormat.CommandLine

/-- The bytes of a file, or why they cannot be read. -/
def readContent (path : String) : IO (Except Error Bytes) := do
  try
    return .ok (← IO.FS.readBinFile path).toList
  catch cause => return .error (.unreadable (toString cause))

/-- The file at a path, if there is one that is not a directory. -/
def findFile (path : String) : IO (Option FoundFile) := do
  try
    let place ← IO.FS.realPath path
    if (← place.metadata).type == .file then return some ⟨path, ← readContent path⟩
    else return none
  catch _ => return none

/-- The class files below a path. -/
partial def findBelow (path : String) : IO (List FoundFile) := do
  try
    let entries ← (← IO.FS.realPath path).readDir
    let found ← entries.toList.mapM fun entry => do
      let inner := extend path entry.fileName
      match ← findFile inner with
      | some file => return if isClassFileName entry.fileName then [file] else []
      | none => findBelow inner
    return found.flatten
  catch _ => return []

/-- The files that a path stands for. -/
def find (path : String) : IO (List FoundFile) := do
  match ← findFile path with
  | some file => return [file]
  | none => findBelow path

def main (arguments : List String) : IO UInt32 := do
  let files ← match parse arguments with
    | some (.run _ _ paths) => List.flatten <$> paths.mapM find
    | _ => pure []
  let report := run (fun _ => files) arguments
  for line in report.log do
    IO.eprintln line.render
  IO.print report.output
  return UInt32.ofNat report.exitCode
