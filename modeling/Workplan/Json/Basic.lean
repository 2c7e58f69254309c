import Workplan.Double.Basic
import Workplan.Fields

/-!
# Structured values

The values that flow through a workflow.  Integers and doubles are kept apart (`1` is not
`1.0`), an integer fits a signed or an unsigned 64-bit word, and the fields of an object
are ordered by name.
-/

namespace Workplan

/-- An integer that fits a signed or an unsigned 64-bit word. -/
structure WordInt where
  val : Int
  lower : -0x8000000000000000 ≤ val
  upper : val < 0x10000000000000000
deriving DecidableEq

namespace WordInt

/-- The integer, if it fits. -/
def ofInt? (n : Int) : Option WordInt :=
  if h : -0x8000000000000000 ≤ n ∧ n < 0x10000000000000000 then some ⟨n, h.1, h.2⟩ else none

/-- An unsigned word. -/
def ofWord (n : UInt64) : WordInt :=
  ⟨n.toNat, by omega, by have := n.toNat_lt; omega⟩

/-- The integer as an unsigned word, if it is not negative. -/
def toWord? (n : WordInt) : Option UInt64 :=
  if 0 ≤ n.val then some (UInt64.ofNat n.val.toNat) else none

theorem toWord?_ofWord (n : UInt64) : (ofWord n).toWord? = some n := by
  simp [ofWord, toWord?]

end WordInt

/-- A structured value. -/
inductive Json where
  | null
  | bool (b : Bool)
  | int (n : WordInt)
  | double (d : Double)
  | str (s : String)
  | arr (items : List Json)
  | obj (fields : List (String × Json))

namespace Json

/-- The kinds of value, as messages name them. -/
def kindName : Json → String
  | null => "null"
  | bool _ => "boolean"
  | int _ => "number"
  | double _ => "number"
  | str _ => "string"
  | arr _ => "array"
  | obj _ => "object"

/-- An object with the given fields in any order; the last value of a name wins. -/
def ofEntries (entries : List (String × Json)) : Json :=
  obj (Fields.ofEntries entries)

/-- An unsigned word as a value. -/
def ofWord (n : UInt64) : Json :=
  int (WordInt.ofWord n)

/-- A count as a value.  Counts that no word can hold do not occur; they would
show as zero. -/
def ofCount (n : Nat) : Json :=
  match WordInt.ofInt? n with
  | some w => int w
  | none => int ⟨0, by omega, by omega⟩

/-- A text, or null when there is none. -/
def ofOption : Option String → Json
  | none => null
  | some s => str s

/-- A list of texts. -/
def ofTexts (ss : List String) : Json :=
  arr (ss.map str)

/-- The value of an object's field. -/
def field? (name : String) : Json → Option Json
  | obj fields => Fields.lookup name fields
  | _ => none

/-- The text of a string value. -/
def text? : Json → Option String
  | str s => some s
  | _ => none

/-- The items of an array. -/
def items? : Json → Option (List Json)
  | arr items => some items
  | _ => none

/-- The number of an integer that is no less than zero. -/
def word? : Json → Option UInt64
  | int n => n.toWord?
  | _ => none

/-- The truth value of a boolean. -/
def bool? : Json → Option Bool
  | bool b => some b
  | _ => none

mutual

/-- Equality of values: deep, with integers and doubles kept apart and the two
zeros equal. -/
def alike : Json → Json → Bool
  | null, null => true
  | bool a, bool b => a == b
  | int a, int b => a == b
  | double a, double b => a.numEq b
  | str a, str b => a == b
  | arr as, arr bs => alikeItems as bs
  | obj as, obj bs => alikeFields as bs
  | _, _ => false

def alikeItems : List Json → List Json → Bool
  | [], [] => true
  | a :: as, b :: bs => alike a b && alikeItems as bs
  | _, _ => false

def alikeFields : List (String × Json) → List (String × Json) → Bool
  | [], [] => true
  | (n, a) :: as, (m, b) :: bs => n == m && alike a b && alikeFields as bs
  | _, _ => false

end

end Json
end Workplan
