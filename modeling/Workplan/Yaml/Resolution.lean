import Workplan.Document.Basic
import Workplan.Yaml.Token

/-!
# Plain scalars as values

A plain scalar without a tag is the first of these that it can be: null, a truth value, an
integer, a double, a text.  Tags of the core schema ask for one of them.  Other tags leave
the choice as it is, when they are local, or make a text.
-/

namespace Workplan.Yaml

open Document (Cause)

/-- The ways to write null, the empty text apart. -/
def isNull (s : String) : Bool :=
  s == "null" || s == "Null" || s == "NULL" || s == "~"

/-- The ways to write a truth value. -/
def readBool? (s : String) : Option Bool :=
  if s == "true" || s == "True" || s == "TRUE" then some true
  else if s == "false" || s == "False" || s == "FALSE" then some false
  else none

/-- An integer of any size, without a sign: decimal, or with a base in front. -/
def magnitude? : List Char → Option Nat
  | '0' :: 'x' :: ds => Text.natOfDigits? 16 ds
  | '0' :: 'o' :: ds => Text.natOfDigits? 8 ds
  | '0' :: 'b' :: ds => Text.natOfDigits? 2 ds
  | ds => Text.natOfDigits? 10 ds

/-- Splits a sign off: whether it is a minus, and what stands behind it. -/
def splitSign : List Char → Bool × List Char
  | '+' :: rest => (false, rest)
  | '-' :: rest => (true, rest)
  | cs => (false, cs)

/-- Whether a zero stands in front of further digits. -/
def isZeroFilled : List Char → Bool
  | '0' :: rest => !rest.isEmpty && rest.all Char.isDigit
  | _ => false

/-- Whether a scalar looks like a number with leading zeros, which is a text. -/
def hasLeadingZero (s : String) : Bool :=
  isZeroFilled (splitSign s.toList).2

/-- What a scalar is as an integer. -/
inductive IntReading where
  /-- An integer that fits a word. -/
  | word (n : WordInt)
  /-- An integer of 128 bits that fits no word. -/
  | wide (n : Int)
  | notInt

/-- The least integer of 128 bits. -/
def leastWide : Int := -0x80000000000000000000000000000000

/-- The least positive integer that needs more than 128 bits. -/
def wideLimit : Int := 0x100000000000000000000000000000000

/-- The reading of a number that is an integer. -/
def IntReading.ofInt (v : Int) : IntReading :=
  match WordInt.ofInt? v with
  | some w => .word w
  | none => if leastWide ≤ v ∧ v < wideLimit then .wide v else .notInt

/-- Reads an integer. -/
def readInt (s : String) : IntReading :=
  if hasLeadingZero s then .notInt
  else
    let (negative, cs) := splitSign s.toList
    match magnitude? cs with
    | none => .notInt
    | some n => .ofInt (if negative then -(n : Int) else n)

/-- The exponent behind the digits of a number: nothing, or a sign and digits
behind a letter. -/
def exponent? : List Char → Option Int
  | [] => some 0
  | e :: rest =>
    if e = 'e' ∨ e = 'E' then
      match rest with
      | '+' :: ds => (Text.natOfDigits? 10 ds).map fun (n : Nat) => (n : Int)
      | '-' :: ds => (Text.natOfDigits? 10 ds).map fun (n : Nat) => -(n : Int)
      | ds => (Text.natOfDigits? 10 ds).map fun (n : Nat) => (n : Int)
    else none

/-- The digits behind a point, if there is one, and what follows them. -/
def splitFraction : List Char → List Char × List Char
  | '.' :: rest => (rest.takeWhile Char.isDigit, rest.dropWhile Char.isDigit)
  | rest => ([], rest)

/-- A decimal number without sign, with digits on at least one side of the point. -/
def decimal? (negative : Bool) (cs : List Char) : Option Double := do
  let whole := cs.takeWhile Char.isDigit
  let (fraction, rest) := splitFraction (cs.dropWhile Char.isDigit)
  let digits ← Text.natOfDigits? 10 (whole ++ fraction)
  let order ← exponent? rest
  Double.ofDecimal? negative digits (order - fraction.length)

/-- What stands behind a plus sign; a second sign is not allowed there. -/
def behindPlus? : List Char → Option (List Char)
  | '+' :: '+' :: _ => none
  | '+' :: '-' :: _ => none
  | '+' :: rest => some rest
  | cs => some cs

/-- Reads a double.  A number too large for one is a text. -/
def readFloat? (s : String) : Option Double.Extended :=
  match behindPlus? s.toList with
  | none => none
  | some cs =>
    let body := String.ofList cs
    -- A plus may stand in front of an infinity, but no sign in front of `.nan`.
    if body == ".inf" || body == ".Inf" || body == ".INF" then some (.infinite false)
    else if s == "-.inf" || s == "-.Inf" || s == "-.INF" then some (.infinite true)
    else if s == ".nan" || s == ".NaN" || s == ".NAN" then some .nan
    else
      let (negative, cs) := splitSign cs
      (decimal? negative cs).map .finite

/-- The value of a plain scalar without a tag. -/
def resolve (s : String) : Except Cause Atom :=
  if s.isEmpty || isNull s then .ok .unit
  else
    match readBool? s with
    | some b => .ok (.bool b)
    | none =>
      match readInt s with
      | .word n => .ok (.int n)
      | .wide n => .error (.wideInteger n)
      | .notInt =>
        if hasLeadingZero s then .ok (.text s)
        else
          match readFloat? s with
          | some f => .ok (.float f)
          | none => .ok (.text s)

/-- The tags of the core schema. -/
inductive CoreTag where
  | bool
  | int
  | float
  | null
deriving DecidableEq

/-- The tag of the core schema with a full form. -/
def CoreTag.of? (tag : String) : Option CoreTag :=
  if tag == "tag:yaml.org,2002:bool" then some .bool
  else if tag == "tag:yaml.org,2002:int" then some .int
  else if tag == "tag:yaml.org,2002:float" then some .float
  else if tag == "tag:yaml.org,2002:null" then some .null
  else none

/-- The value of a scalar for which a tag of the core schema asks. -/
def CoreTag.resolve (tag : CoreTag) (s : String) : Except Cause Atom :=
  let refuse (wanted : String) : Except Cause Atom := .error (.wrongValue (.text s) wanted)
  match tag with
  | bool => match readBool? s with
    | some b => .ok (.bool b)
    | none => refuse "a boolean"
  | int => match readInt s with
    | .word n => .ok (.int n)
    | .wide n => .error (.wideInteger n)
    | .notInt => refuse "an integer"
  | float => match readFloat? s with
    | some f => .ok (.float f)
    | none => refuse "a float"
  | null => if isNull s then .ok .unit else refuse "null"

/-- Whether a tag is local to its document. -/
def isLocalTag (tag : String) : Bool :=
  tag.toList.head? == some '!'

/-- The readings of a scalar. -/
def readScalar (tag : Option String) (style : Style) (s : String) : Document.Scalar where
  text := some s
  absent :=
    match style, tag with
    -- Quotes make a text of whatever they hold.
    | .quoted, _ => .ok false
    | .plain, none => .ok (s.isEmpty || isNull s)
    | .plain, some t =>
      if CoreTag.of? t == some .null then
        if isNull s then .ok true else .error (.wrongValue (.text s) "null")
      else .ok false
  vacant := s.isEmpty && style == .plain
  value :=
    match tag.bind CoreTag.of? with
    | some core => core.resolve s
    | none =>
      if style == .plain && tag.all isLocalTag then resolve s else .ok (.text s)

end Workplan.Yaml
