import ClassFormat.Class.Histogram
import ClassFormat.Code.Flow
import ClassFormat.CommandLine.Arguments
import ClassFormat.CommandLine.Directory
/-!
# Reports on class files

What the commands do with class files whose bytes are at hand. A report is the text for standard
output, the lines of the log, and the exit code: 0, or 1 if any file failed.

`verdict` says whether a class is written back as the bytes it was read from. If it is not,
something in the file was left out when it was read, and the first byte that differs is named.
-/

namespace ClassFormat.CommandLine

/-- How pressing a line of the log is. -/
inductive Level where
  | error
  | warning
  | info
  | debug
deriving DecidableEq, Repr

def Level.name : Level → String
  | error => "ERROR"
  | warning => "WARN"
  | info => "INFO"
  | debug => "DEBUG"

/-- A line of the log. -/
structure LogLine where
  level : Level
  text : String
deriving DecidableEq, Repr

/-- A line as it is shown. -/
def LogLine.render (line : LogLine) : String := line.level.name ++ " " ++ line.text

/-- What stands in front of the first line break. -/
def firstLine : List Char → List Char
  | [] | '\n' :: _ | '\r' :: '\n' :: _ => []
  | c :: others => c :: firstLine others

/-- A line of the log, without the lines that its own breaks make. -/
def LogLine.heading (line : LogLine) : LogLine :=
  { line with text := .ofList (firstLine line.text.toList) }

/-- What a run of the program shows. -/
structure Report where
  exitCode : Nat
  output : String
  log : List LogLine
deriving DecidableEq, Repr

/-- The lines for the notices that are to be told. -/
def logNotices (verbosity : Verbosity) (notices : List Notice) : List LogLine :=
  (notices.filter (·.isTold verbosity)).map fun notice =>
    ⟨if notice.isWarning then .warning else .debug, notice.message⟩

/-- The class of a file, with a pool of the given tag. -/
def readClass (tag : PoolTag) (verbosity : Verbosity) (file : FoundFile) :
    Noted (Except Error ClassFile) :=
  match file.content with
  | .ok bytes => ClassFile.parse tag verbosity bytes
  | .error cause => ⟨.error cause, []⟩

/-! ## Counting -/

/-- What counting came to so far. -/
structure Counting where
  histogram : Histogram
  failures : Nat
  /-- Lines of the log, last one first. -/
  log : List LogLine

/-- Count one file. The position of the file serves as the tag of its pool. -/
def countFile (verbosity : Verbosity) (counting : Counting) (numbered : FoundFile × Nat) :
    Counting :=
  let (file, position) := numbered
  let failed (histogram : Histogram) (notices : List Notice) (cause : Error) : Counting :=
    { histogram
      failures := counting.failures + 1
      log := ⟨.error, s!"{file.path}: {cause.message}"⟩
        :: (logNotices verbosity notices).reverse ++ counting.log }
  match readClass ⟨position⟩ verbosity file with
  | ⟨.error cause, notices⟩ => failed counting.histogram notices cause
  | ⟨.ok parsed, notices⟩ =>
    match counting.histogram.countClass verbosity parsed with
    | ⟨(some cause, histogram), more⟩ => failed histogram (notices ++ more) cause
    | ⟨(none, histogram), more⟩ =>
      { counting with
        histogram
        log := (logNotices verbosity (notices ++ more)).reverse ++ counting.log }

/-- The histogram over all files, as far as they can be counted. -/
def count (verbosity : Verbosity) (files : List FoundFile) : Report :=
  let counting := files.zipIdx.foldl (countFile verbosity) ⟨Histogram.empty, 0, []⟩
  { exitCode := if counting.failures = 0 then 0 else 1
    output := counting.histogram.render
    log := counting.log.reverse }

/-! ## Verifying -/

/-- What verifying a file came to. -/
inductive Verdict where
  /-- The class is written back as the same bytes. -/
  | same
  /-- The first byte that differs, the number of bytes read and the number of bytes written. -/
  | different (offset expected actual : Nat)
  | failed (cause : Error)
deriving DecidableEq, Repr

/-- Number of equal bytes in front, on top of those before. -/
def commonLength (before : Nat) : Bytes → Bytes → Nat
  | byte :: bytes, other :: others =>
    if byte = other then commonLength (before + 1) bytes others else before
  | _, _ => before

/-- Compare the bytes of a file with those its class is written back as. -/
def compareBytes (bytes : Bytes) (encoded : Except Error Bytes) : Verdict :=
  match encoded with
  | .error cause => .failed cause
  | .ok encoded =>
    if encoded = bytes then .same
    else .different (commonLength 0 bytes encoded) bytes.length encoded.length

/-- The line for a handler that does not fit the instructions of its method. -/
def misalignedLine (path name : String) (handler : ExceptionHandler) : LogLine :=
  ⟨.warning, s!"{path}: method {name} has an exception handler off instruction boundaries: "
    ++ handler.describe⟩

/-- Lines on the handlers of a method, or why its code cannot be read. -/
def checkHandlers (path : String) (pool : Pool) (method : Method) (code : Code) :
    Except Error (List LogLine) := do
  let name := (pool.text method.name).toOption.getD "<invalid>"
  let starts ← Flow.instructionStarts pool code.bytes
  return (Flow.misalignedHandlers code.bytes code.handlers starts).map (misalignedLine path name)

/-- Check the handlers of some methods, up to the first one whose code cannot be read. The lines so
far are at hand, last one first. -/
def checkMethods (path : String) (pool : Pool) (log : List LogLine) :
    List Method → Option Error × List LogLine
  | [] => (none, log)
  | method :: others =>
    match method.code? with
    | none => checkMethods path pool log others
    | some code =>
      match checkHandlers path pool method code with
      | .error cause => (some cause, log)
      | .ok lines => checkMethods path pool (lines.reverse ++ log) others

/-- What verifying a file comes to, and the lines of the log, last one first. -/
def verdict (tag : PoolTag) (verbosity : Verbosity) (file : FoundFile) :
    Verdict × List LogLine :=
  match file.content with
  | .error cause => (.failed cause, [])
  | .ok bytes =>
    match ClassFile.parse tag verbosity bytes with
    | ⟨.error cause, notices⟩ => (.failed cause, (logNotices verbosity notices).reverse)
    | ⟨.ok parsed, notices⟩ =>
      match checkMethods file.path parsed.constants (logNotices verbosity notices).reverse
          parsed.methods with
      | (some cause, log) => (.failed cause, log)
      | (none, log) => (compareBytes bytes parsed.encode, log)

/-- What verifying came to so far. -/
structure Verification where
  failures : Nat
  /-- Lines for standard output, last one first. -/
  output : List String
  /-- Lines of the log, last one first. -/
  log : List LogLine

/-- Verify one file. The position of the file serves as the tag of its pool. -/
def verifyFile (verbosity : Verbosity) (verification : Verification)
    (numbered : FoundFile × Nat) : Verification :=
  let (file, position) := numbered
  let (verdict, log) := verdict ⟨position⟩ verbosity file
  let log := log ++ verification.log
  match verdict with
  | .same =>
    let line : LogLine := ⟨.debug, s!"{file.path}: OK"⟩
    { verification with log := if verbosity = .verbose then line :: log else log }
  | .different offset expected actual =>
    { failures := verification.failures + 1
      output := (s!"{file.path}: re-encoded class differs at byte {offset} "
        ++ s!"({expected} bytes read, {actual} bytes written)\n") :: verification.output
      log }
  | .failed cause =>
    { failures := verification.failures + 1
      output := s!"{file.path}: {cause.message}\n" :: verification.output
      log }

/-- The verdict on all files. -/
def verify (verbosity : Verbosity) (files : List FoundFile) : Report :=
  let verification := files.zipIdx.foldl (verifyFile verbosity) ⟨0, [], []⟩
  let sound := files.length - verification.failures
  { exitCode := if verification.failures = 0 then 0 else 1
    output := String.join verification.output.reverse
    log := verification.log.reverse ++ [⟨.info, s!"{sound} of {files.length} classes round-trip"⟩] }

/-! ## The program -/

/-- Name by which the program is called. -/
def programName : String := "jclassfile"

/-- Answer to a request for the version. -/
def versionText : String := s!"{programName} 0.1.0\n"

/-- What a command does, in one line. -/
def Command.about : Command → String
  | .count => "Print a histogram of the opcodes used by every method"
  | .verify => "Parse and re-encode classes, reporting any that do not round-trip"

/-- Answer to a request for help. -/
def helpText : Option Command → String
  | none =>
    "Inspect JVM class files and check that they re-encode byte for byte\n\n"
      ++ s!"Usage: {programName} [OPTIONS] <COMMAND>\n\n"
      ++ s!"Commands:\n  count   {Command.count.about}\n  verify  {Command.verify.about}\n\n"
      ++ "Options: --verbose, --help, --version\n"
  | some command =>
    s!"{command.about}\n\nUsage: {programName} [OPTIONS] {command.name} <PATH>...\n\n"
      ++ "Options: --verbose, --help\n"

/-- Answer to a command over the files that its paths stand for. -/
def runCommand (verbosity : Verbosity) (command : Command) (files : List FoundFile) : Report :=
  let report := match command with
    | .count => count verbosity files
    | .verify => verify verbosity files
  { report with log := ⟨.info, s!"Found {files.length} class files"⟩ :: report.log }

/-- Answer to the arguments, given the files that some paths stand for. -/
def run (find : List String → List FoundFile) (arguments : List String) : Report :=
  match parse arguments with
  | none => ⟨2, "", []⟩
  | some .version => ⟨0, versionText, []⟩
  | some (.help topic) => ⟨0, helpText topic, []⟩
  | some (.run verbosity command paths) => runCommand verbosity command (find paths)

end ClassFormat.CommandLine
