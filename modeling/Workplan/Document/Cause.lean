import Workplan.Double.Decimal
import Workplan.Json.Basic
import Workplan.Text.Quoted

/-!
# Why a document has no meaning

Reading a typed value from a document fails for a `Cause`, found at a `Path`.  The wording
of both is here and nowhere else; the two notations of documents name a few things
differently, which is what `Dialect` is for.
-/

namespace Workplan.Document

/-- The notation in which a document was written. -/
inductive Dialect where
  | json
  | yaml
deriving DecidableEq

/-! ## Places -/

/-- One step from a value to a part of it. -/
inductive Segment where
  | item (index : Nat)
  | field (name : String)
  /-- A part whose name cannot be shown. -/
  | unnamed
deriving DecidableEq

/-- A place in a document, outermost segment first. -/
abbrev Path := List Segment

namespace Path

/-- The path of an item. -/
def item (p : Path) (index : Nat) : Path := p ++ [.item index]

/-- The path of a part with or without a name. -/
def part (p : Path) (name : Option String) : Path :=
  p ++ [match name with
    | some n => .field n
    | none => .unnamed]

/-- Text of a path: names with dots between them, positions in brackets. -/
def text : Path → String
  | [] => ""
  | segments => segments.foldl (fun acc s =>
      match s with
      | .item i => (if acc.isEmpty then "." else acc) ++ "[" ++ toString i ++ "]"
      | .field n => (if acc.isEmpty then "" else acc ++ ".") ++ n
      | .unnamed => (if acc.isEmpty then "" else acc ++ ".") ++ "?") ""

end Path

/-! ## Causes -/

/-- What was found where something else is wanted. -/
inductive Found where
  | unit
  | bool (b : Bool)
  | int (n : Int)
  | float (f : Double.Extended)
  | text (s : String)
  | list
  | table
  | mark
deriving DecidableEq

/-- Why a value cannot be read. -/
inductive Cause where
  | missingField (name : String)
  | duplicateField (name : String)
  | unknownVariant (name : String) (known : List String)
  | wrongType (found : Found) (wanted : String)
  | wrongValue (found : Found) (wanted : String)
  | wrongLength (length : Nat) (wanted : String)
  /-- A marked value inside data that is held back before its type is known. -/
  | markedData
  /-- A part that is nested too deeply or repeated too often to be looked at. -/
  | unreadable
  /-- An integer that no word can hold. -/
  | wideInteger (n : Int)
deriving DecidableEq

namespace Found

/-- Text of a number in messages. -/
def floatText (dialect : Dialect) : Double.Extended → String
  | .finite d => match dialect with
    | .json => Double.text true d
    | .yaml => Double.plainText d
  | .infinite negative => if negative then "-inf" else "inf"
  | .nan => "NaN"

/-- How a message names what was found. -/
def describe (dialect : Dialect) : Found → String
  | unit => match dialect with
    | .json => "null"
    | .yaml => "unit value"
  | bool b => "boolean `" ++ (if b then "true" else "false") ++ "`"
  | int n => "integer `" ++ toString n ++ "`"
  | float f => "floating point `" ++ floatText dialect f ++ "`"
  | text s => "string " ++ Text.Quoted.encode s
  | list => "sequence"
  | table => "map"
  | mark => "enum"

end Found

/-- The choice among the variants of a type. -/
private def oneOf (known : List String) : String :=
  match known.map fun n => "`" ++ n ++ "`" with
  | [] => "there are no variants"
  | [a] => "expected " ++ a
  | [a, b] => "expected " ++ a ++ " or " ++ b
  | names => "expected one of " ++ Text.joinWith ", " names

/-- The wording of a cause. -/
def Cause.message (dialect : Dialect) : Cause → String
  | missingField name => "missing field `" ++ name ++ "`"
  | duplicateField name => "duplicate field `" ++ name ++ "`"
  | unknownVariant name known => "unknown variant `" ++ name ++ "`, " ++ oneOf known
  | wrongType found wanted =>
    "invalid type: " ++ found.describe dialect ++ ", expected " ++ wanted
  | wrongValue found wanted =>
    "invalid value: " ++ found.describe dialect ++ ", expected " ++ wanted
  | wrongLength length wanted =>
    "invalid length " ++ toString length ++ ", expected " ++ wanted
  | markedData => "untagged and internally tagged enums do not support enum input"
  | unreadable => "recursion limit exceeded"
  | wideInteger n =>
    "invalid type: integer `" ++ toString n ++ "` as i128, expected any value"

/-- A cause and the place where reading stopped, once that place is known. -/
structure Failure where
  place : Option Path
  cause : Cause
deriving DecidableEq

namespace Failure

/-- Wording of a failure.  In the notation that has lines, a place inside the document
comes first. -/
def message (dialect : Dialect) (f : Failure) : String :=
  match dialect, f.place with
  | .json, _ | .yaml, none | .yaml, some [] => f.cause.message dialect
  | .yaml, some path => path.text ++ ": " ++ f.cause.message dialect

end Failure

/-- Fails at a place. -/
def failAt {α : Type} (path : Path) (cause : Cause) : Except Failure α :=
  .error ⟨some path, cause⟩

/-- A cause without a place, as a failure at a place. -/
def placed {α : Type} (path : Path) : Except Cause α → Except Failure α
  | .ok a => .ok a
  | .error cause => failAt path cause

end Workplan.Document
