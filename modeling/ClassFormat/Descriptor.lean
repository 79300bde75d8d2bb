import ClassFormat.Error
import ClassFormat.Layout
/-!
# Type descriptors

Types are written as short strings: a letter for a base type, `L` name `;` for a class, `[` before
the element type of an array, and for a method its parameter types in parentheses before the type of
its result, where `V` stands for none.

`scan` takes a type off the front of the characters. It answers the type, if there is one, and the
characters it did not look at, also where it fails. `parse` asks for all characters to be used, and
`render` writes a type back: on types whose class names are well formed the two are inverse.
-/

namespace ClassFormat

/-- Types that are not made of others. -/
inductive BaseType where
  | byte
  | char
  | double
  | float
  | int
  | long
  | short
  | boolean
deriving DecidableEq, Repr

namespace BaseType

/-- Letter of a base type. -/
def letter : BaseType → Char
  | byte => 'B'
  | char => 'C'
  | double => 'D'
  | float => 'F'
  | int => 'I'
  | long => 'J'
  | short => 'S'
  | boolean => 'Z'

/-- The base type with a letter. -/
def ofLetter? : Char → Option BaseType
  | 'B' => some byte
  | 'C' => some char
  | 'D' => some double
  | 'F' => some float
  | 'I' => some int
  | 'J' => some long
  | 'S' => some short
  | 'Z' => some boolean
  | _ => none

/-- A `long` or `double` takes two local variable slots. -/
instance : Wide BaseType where
  width
    | double | long => 2
    | _ => 1

def render (type : BaseType) : String := type.letter.toString

/-- Looks at one character, if there is one. -/
def scan : List Char → Option BaseType × List Char
  | [] => (none, [])
  | c :: rest => (ofLetter? c, rest)

end BaseType

/-- Type of a field, an array element or a local variable. Class names are in their internal form,
with slashes. -/
inductive FieldType where
  | base (type : BaseType)
  | object (className : String)
  | array (element : FieldType)
deriving DecidableEq, Repr

namespace FieldType

/-- Only a base type can take two local variable slots. -/
instance : Wide FieldType where
  width
    | base type => width type
    | _ => 1

/-- Whether values of the type take two local variable slots. -/
def isDoubleWord (type : FieldType) : Bool := width type == 2

/-- Arrays of so many dimensions around a type. -/
def arrayOf : Nat → FieldType → FieldType
  | 0, type => type
  | dimensions + 1, type => arrayOf dimensions (array type)

/-- The descriptor of a type behind the text so far. -/
def renderAfter (text : String) : FieldType → String
  | base type => text.push type.letter
  | object className => ((text.push 'L') ++ className).push ';'
  | array element => renderAfter (text.push '[') element

/-- Descriptor of a type. -/
def render (type : FieldType) : String := renderAfter "" type

/-- The class name up to the semicolon, behind the characters already taken (last one first). -/
def scanName (taken : List Char) : List Char → Option FieldType × List Char
  | [] => (none, [])
  | c :: rest =>
    if c = ';' ∧ taken ≠ [] then (some (object (String.ofList taken.reverse)), rest)
    else if c = ';' ∨ c = '.' ∨ c = '[' then (none, rest)
    else scanName (c :: taken) rest

/-- The type inside so many array dimensions. -/
def scanInside (dimensions : Nat) : List Char → Option FieldType × List Char
  | [] => (none, [])
  | c :: rest =>
    if c = '[' then scanInside (dimensions + 1) rest
    else if c = 'L' then
      let (type, rest) := scanName [] rest
      (type.map (arrayOf dimensions), rest)
    else ((BaseType.ofLetter? c).map fun type => arrayOf dimensions (base type), rest)

/-- Takes a type off the front of the characters. -/
def scan (chars : List Char) : Option FieldType × List Char := scanInside 0 chars

end FieldType

/-- Parameters and result of a method. -/
structure MethodType where
  parameters : List FieldType
  /-- Nothing for a method without a result. -/
  result : Option FieldType
deriving DecidableEq, Repr

namespace MethodType

/-- Number of local variable slots that the arguments take. -/
def parameterLength (type : MethodType) (hasReceiver : Bool) : Nat :=
  type.parameters.foldl (fun slots parameter => slots + width parameter)
    (if hasReceiver then 1 else 0)

/-- Descriptor of a method. -/
def render (type : MethodType) : String :=
  let parameters := type.parameters.foldl FieldType.renderAfter "("
  match type.result with
  | none => (parameters.push ')').push 'V'
  | some result => result.renderAfter (parameters.push ')')

/-- The parameters up to the closing parenthesis, behind those already taken (last one first). Each
takes at least one character, so a bound of their number is never reached. -/
def scanParameters : Nat → List FieldType → List Char → Option (List FieldType) × List Char
  | 0, _, chars => (none, chars)
  | bound + 1, taken, chars =>
    if chars.head? = some ')' then (some taken.reverse, chars.tail)
    else
      match FieldType.scan chars with
      | (some parameter, rest) => scanParameters bound (parameter :: taken) rest
      | (none, rest) => (none, rest)

/-- The result type; `V` stands for none. -/
def scanResult (chars : List Char) : Option (Option FieldType) × List Char :=
  if chars.head? = some 'V' then (some none, chars.tail)
  else
    let (result, rest) := FieldType.scan chars
    (result.map some, rest)

/-- Takes a method type off the front of the characters. -/
def scan (chars : List Char) : Option MethodType × List Char :=
  if chars.head? = some '(' then
    match scanParameters chars.length [] chars.tail with
    | (none, rest) => (none, rest)
    | (some parameters, rest) =>
      let (result, rest) := scanResult rest
      (result.map (MethodType.mk parameters), rest)
  else (none, chars)

end MethodType

/-! ## Parsing whole strings -/

/-- What a scan of all the characters finds, if it leaves none. -/
def parseAll {α : Type} (scan : List Char → Option α × List Char) (text : String) :
    Except Error α :=
  match scan text.toList with
  | (some value, []) => .ok value
  | _ => .error (.badDescriptor text)

/-- The base type with this descriptor. -/
def BaseType.parse (text : String) : Except Error BaseType := parseAll BaseType.scan text

/-- The type with this descriptor. -/
def FieldType.parse (text : String) : Except Error FieldType := parseAll FieldType.scan text

/-- The method type with this descriptor. -/
def MethodType.parse (text : String) : Except Error MethodType := parseAll MethodType.scan text

end ClassFormat
