import Workplan.Double.Basic

/-!
# Scaled doubles

A significand scaled by a power of ten in double arithmetic.  Every operation rounds, so
the result need not be the nearest double: `123456789012345678901` becomes the neighbour
below it.  Numbers of up to fifteen digits and powers of up to 22 come out exactly
rounded, since then only one operation rounds.
-/

namespace Workplan.Double

/-- Magnitude of the rounded product of two magnitudes. -/
def product (a b : Nat) : Nat :=
  nearest (unitsOf a * unitsOf b) (Nat.pow 2 2148)

/-- Magnitude of the rounded quotient of two magnitudes. -/
def quotient (a b : Nat) : Nat :=
  nearest (unitsOf a) (unitsOf b)

/-- Magnitude of a power of ten. -/
def tenTo (n : Nat) : Nat :=
  nearest (Nat.pow 10 n) 1

/-- The largest power of ten that is a double. -/
def largestTen : Nat := 308

/-- Divides a magnitude by a power of ten, by the largest one first. -/
def scaleDown (magnitude n : Nat) : Nat :=
  if n ≤ largestTen then quotient magnitude (tenTo n)
  else if magnitude = 0 then 0
  else scaleDown (quotient magnitude (tenTo largestTen)) (n - largestTen)
termination_by n
decreasing_by simp [largestTen] at *; omega

/-- The double `± significand * 10 ^ exponent`, or `none` when that is too large. -/
def ofScaled? (negative : Bool) (significand : Nat) (exponent : Int) : Option Double :=
  let magnitude := nearest significand 1
  if magnitude = 0 then some (zero negative)
  else if exponent < 0 then ofMagnitude? negative (scaleDown magnitude (-exponent).toNat)
  else if exponent ≤ largestTen then
    ofMagnitude? negative (product magnitude (tenTo exponent.toNat))
  else none

/-- Reads digits behind a significand as long as it fits a word: the longer significand,
and how many digits it took. -/
def extend (significand : Nat) : List Nat → Nat × Nat
  | [] => (significand, 0)
  | d :: rest =>
    if significand * 10 + d < 0x10000000000000000 then
      let (longer, taken) := extend (significand * 10 + d) rest
      (longer, taken + 1)
    else (significand, 0)

/-- The double that digits before and behind a point denote, with an exponent. -/
def ofDigits? (negative : Bool) (whole fraction : List Nat) (exponent : Int) :
    Option Double :=
  let (significand, taken) := extend 0 whole
  let dropped := whole.length - taken
  let (significand, taken) := extend significand fraction
  ofScaled? negative significand (exponent + dropped - taken)

end Workplan.Double
