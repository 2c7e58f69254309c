/-!
# Doubles

A finite IEEE 754 double as its sign and its *magnitude*: the remaining bits read as a
number.  The magnitude grows with the absolute value, and every finite double has
exactly one such form, so that equality of forms is equality of bit patterns (the two
zeros differ).

Absolute values are counted in units of `2 ^ -1074`, the least positive double.
-/

namespace Workplan

/-- The least magnitude that stands for no finite number. -/
def Double.limit : Nat := 0x7FF * Nat.pow 2 52

/-- A finite double. -/
structure Double where
  negative : Bool
  magnitude : Nat
  isFinite : magnitude < Double.limit
deriving DecidableEq

namespace Double

/-- Number of units of `2 ^ -1074` that a magnitude stands for. -/
def unitsOf (magnitude : Nat) : Nat :=
  let shift := magnitude / Nat.pow 2 52 - 1
  (magnitude - shift * Nat.pow 2 52) * Nat.pow 2 shift

/-- Magnitude nearest to the quotient `num / den`; of two that are equally near, the even
one.  The result may reach `limit`, when the quotient is too large. -/
def nearest (num den : Nat) : Nat :=
  let scaled := num * Nat.pow 2 1074
  let shift := (scaled / den).log2 - 52
  let step := den * Nat.pow 2 shift
  let low := scaled / step
  let rest := scaled % step
  let up := step < 2 * rest || (2 * rest == step && low % 2 == 1)
  shift * Nat.pow 2 52 + (if up then low + 1 else low)

/-- The double with the given sign and magnitude, unless the magnitude is too large. -/
def ofMagnitude? (negative : Bool) (magnitude : Nat) : Option Double :=
  if h : magnitude < limit then some ⟨negative, magnitude, h⟩ else none

/-- Zero with a sign. -/
def zero (negative : Bool) : Double :=
  ⟨negative, 0, by decide⟩

/-- Number of decimal digits. -/
def digitCount (n : Nat) : Nat :=
  (Nat.toDigits 10 n).length

/-- The double nearest to `± digits * 10 ^ exponent`, or `none` when that is too large.
Numbers far outside the range are decided by their order of magnitude alone. -/
def ofDecimal? (negative : Bool) (digits : Nat) (exponent : Int) : Option Double :=
  if digits = 0 then some (zero negative)
  else
    let order := (digitCount digits : Int) + exponent
    if 400 < order then none
    else if order < -400 then some (zero negative)
    else if 0 ≤ exponent then
      ofMagnitude? negative (nearest (digits * Nat.pow 10 exponent.toNat) 1)
    else ofMagnitude? negative (nearest digits (Nat.pow 10 (-exponent).toNat))

/-- A double that may also be infinite or no number at all. -/
inductive Extended where
  | finite (d : Double)
  | infinite (negative : Bool)
  | nan
deriving DecidableEq

/-- Numerical equality: the two zeros are equal. -/
def numEq (a b : Double) : Bool :=
  a.magnitude == b.magnitude && (a.negative == b.negative || a.magnitude == 0)

end Double
end Workplan
