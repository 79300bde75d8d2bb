import ClassFormat.Notice
/-!
# Arguments of the command line

A command line asks for the version, for help, or for a command over some paths. Arguments are taken
from left to right, and the first one that asks for the version or help, or that is wrong, decides.
Behind `--` every argument is a path.
-/

namespace ClassFormat.CommandLine

/-- What can be done with class files. -/
inductive Command where
  /-- Count the opcodes of all methods. -/
  | count
  /-- Check that classes are written back as the same bytes. -/
  | verify
deriving DecidableEq, Repr

def Command.name : Command → String
  | count => "count"
  | verify => "verify"

def Command.ofName? (name : String) : Option Command :=
  [count, verify].find? fun command => command.name == name

/-- What a command line asks for. -/
inductive Request where
  | version
  /-- Help on a command, or on all of them. -/
  | help (topic : Option Command)
  | run (verbosity : Verbosity) (command : Command) (paths : List String)
deriving DecidableEq, Repr

/-- An option without a value. -/
inductive Switch where
  | verbose
  | help
  | version
deriving DecidableEq, Repr

namespace Switch

def ofLong? : String → Option Switch
  | "--verbose" => some verbose
  | "--help" => some help
  | "--version" => some version
  | _ => none

def ofShort? : Char → Option Switch
  | 'v' => some verbose
  | 'h' => some help
  | 'V' => some version
  | _ => none

end Switch

/-- An argument by its form. -/
inductive Argument where
  /-- Options; those that nobody knows are nothing. -/
  | switches (switches : List (Option Switch))
  /-- All arguments behind this one are values. -/
  | separator
  | value (text : String)
deriving DecidableEq, Repr

/-- One hyphen starts short options, two start a long one. A hyphen alone is a value. -/
def Argument.ofString (text : String) : Argument :=
  match text.toList with
  | ['-'] => .value text
  | ['-', '-'] => .separator
  | '-' :: '-' :: _ => .switches [Switch.ofLong? text]
  | '-' :: letters => .switches (letters.map Switch.ofShort?)
  | _ => .value text

/-- What options come to: an answer, or whether to go on and be verbose. -/
inductive Progress where
  | answered (request : Option Request)
  | goOn (isVerbose : Bool)
deriving DecidableEq, Repr

/-- Apply options before a command (`topic` is nothing) or behind it. The same option twice is
wrong, and only the program as a whole has a version. -/
def applySwitches (topic : Option Command) (isVerbose : Bool) : List (Option Switch) → Progress
  | [] => .goOn isVerbose
  | some .verbose :: others =>
    if isVerbose then .answered none else applySwitches topic true others
  | some .help :: _ => .answered (some (.help topic))
  | some .version :: _ => .answered (if topic = none then some .version else none)
  | none :: _ => .answered none

/-- The request for a command with the given paths (last one first). -/
def finish (isVerbose : Bool) (command : Command) (paths : List String) : Option Request :=
  if paths = [] ∨ "" ∈ paths then none
  else some (.run (if isVerbose then .verbose else .quiet) command paths.reverse)

/-- The arguments behind a command. `before` tells whether the program was made verbose
before it. -/
def parsePaths (before : Bool) (command : Command) (isVerbose : Bool) (paths : List String) :
    List String → Option Request
  | [] => finish (before || isVerbose) command paths
  | text :: others =>
    match Argument.ofString text with
    | .separator => finish (before || isVerbose) command (others.reverse ++ paths)
    | .value path =>
      if path = "" then none else parsePaths before command isVerbose (path :: paths) others
    | .switches switches =>
      match applySwitches (some command) isVerbose switches with
      | .answered request => request
      | .goOn isVerbose => parsePaths before command isVerbose paths others

/-- The arguments behind `help`. -/
def parseTopic : List String → Option Request
  | [] => some (.help none)
  | [name] => (Command.ofName? name).map fun command => .help (some command)
  | _ => none

/-- The arguments of the program. -/
def parseFrom (isVerbose : Bool) : List String → Option Request
  | [] => none
  | text :: others =>
    match Argument.ofString text with
    | .separator => none
    | .value "help" => parseTopic others
    | .value name =>
      match Command.ofName? name with
      | some command => parsePaths isVerbose command false [] others
      | none => none
    | .switches switches =>
      match applySwitches none isVerbose switches with
      | .answered request => request
      | .goOn isVerbose => parseFrom isVerbose others

/-- What the arguments ask for, if nothing is wrong with them. -/
def parse (arguments : List String) : Option Request := parseFrom false arguments

end ClassFormat.CommandLine
