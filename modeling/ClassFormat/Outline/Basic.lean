import ClassFormat.Bytes
import ClassFormat.Error
/-!
# Outlines

An outline lays a value open as named fields, lists, numbers and texts, for tools that show or
compare what a class file says. A part that has a cause of failure in its place is shown by that
cause. Numbers of 64 bits are shown as texts, since many tools keep no more than 53 bits of a
number.

Handles on constants mean nothing outside the program, so whoever asks for an outline says how to
show them, as a rule by index.
-/

namespace ClassFormat

/-- A value laid open. -/
inductive Outline where
  | nothing
  | truth (value : Bool)
  | number (value : Int)
  | text (value : String)
  | list (items : List Outline)
  | record (fields : List (String × Outline))

/-- How handles on constants are shown. -/
abbrev ConstantView : Type := ConstantId → Outline

namespace Outline

instance : Coe Bool Outline := ⟨truth⟩
instance : Coe Int Outline := ⟨number⟩
instance : Coe Nat Outline := ⟨fun n => number n⟩
instance : Coe UInt8 Outline := ⟨fun n => number n.toNat⟩
instance : Coe UInt16 Outline := ⟨fun n => number n.toNat⟩
instance : Coe UInt32 Outline := ⟨fun n => number n.toNat⟩
instance : Coe Int16 Outline := ⟨fun n => number n.toInt⟩
instance : Coe Int32 Outline := ⟨fun n => number n.toInt⟩
instance : Coe String Outline := ⟨text⟩

variable {α : Type}

/-- The elements of a list. -/
def ofList (outline : α → Outline) (items : List α) : Outline := list (items.map outline)

/-- The value, if there is one. -/
def ofOption (outline : α → Outline) : Option α → Outline
  | some value => outline value
  | none => nothing

/-- The numbers of a list. -/
def ofNats (numbers : List Nat) : Outline := ofList (fun (n : Nat) => n) numbers

/-- The addresses of a list. -/
def ofAddresses (addresses : List UInt32) : Outline :=
  ofList (fun (address : UInt32) => address) addresses

/-- The number, if there is one. -/
def ofNat? (n : Option Nat) : Outline := ofOption (fun (n : Nat) => n) n

/-- The units of a text. -/
def ofUnits (units : List UInt16) : Outline := ofList (fun (unit : UInt16) => unit) units

/-- The kind and the wording of a cause of failure. -/
def errorFields (cause : Error) : List (String × Outline) :=
  [("error", cause.name), ("message", cause.message)]

def ofError (cause : Error) : Outline := record (errorFields cause)

/-- The value, or the cause that there is none. -/
def ofExcept (outline : α → Outline) : Except Error α → Outline
  | .ok value => outline value
  | .error cause => ofError cause

/-- Bytes as hexadecimal digits. -/
def ofBytes (bytes : Bytes) : Outline := text (Text.Hexadecimal.encode bytes)

/-- How two things compare. -/
def ofOrdering : Ordering → Outline
  | .lt => "Less"
  | .eq => "Equal"
  | .gt => "Greater"

end Outline

end ClassFormat
