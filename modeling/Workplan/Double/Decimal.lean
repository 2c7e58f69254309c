import Workplan.Double.Basic

/-!
# Decimal text of doubles

A double is written with the fewest digits that read back as the same double; of several
such digit strings the nearest to the exact value is taken.  Three notations share those
digits: `text` switches to an exponent outside a window, with or without a plus sign, and
`plainText` never does.
-/

namespace Workplan.Double

/-- A nonnegative decimal number `digits * 10 ^ exponent`. -/
structure Decimal where
  digits : Nat
  exponent : Int
deriving Repr, DecidableEq

/-- Drops trailing zeros of the digits.  The fuel bounds the number of zeros. -/
def Decimal.strip : Nat → Decimal → Decimal
  | 0, d => d
  | fuel + 1, d =>
    if d.digits % 10 = 0 ∧ d.digits ≠ 0 then strip fuel ⟨d.digits / 10, d.exponent + 1⟩
    else d

/-- Position of the leading digit of `num / den`: the `p` with `10 ^ p ≤ num / den < 10
^ (p + 1)`. -/
def leadingPlace (num den : Nat) : Int :=
  if den ≤ num then (digitCount (num / den) : Int) - 1
  else
    let places := digitCount (den / num)
    if num * Nat.pow 10 (places - 1) = den then 1 - (places : Int) else -(places : Int)

/-- Whether a decimal number reads back as a magnitude. -/
def Decimal.readsAs (magnitude : Nat) (d : Decimal) : Bool :=
  (ofDecimal? false d.digits d.exponent).any (·.magnitude == magnitude)

/-- Of the two neighbours of `num / den` with the given number of digits, the nearest that
reads back as the magnitude; of two equally near, the even one. -/
def withDigits? (magnitude num den count : Nat) : Option Decimal :=
  let place := leadingPlace num den - (count : Int) + 1
  let (top, bottom) :=
    if 0 ≤ place then (num, den * Nat.pow 10 place.toNat)
    else (num * Nat.pow 10 (-place).toNat, den)
  let low := top / bottom
  let rest := top % bottom
  let below : Decimal := ⟨low, place⟩
  let above : Decimal := ⟨low + 1, place⟩
  match below.readsAs magnitude, above.readsAs magnitude with
  | true, true =>
    if 2 * rest < bottom || (2 * rest == bottom && low % 2 == 0) then some below
    else some above
  | true, false => some below
  | false, true => some above
  | false, false => none

/-- The exact decimal expansion of `units / 2 ^ places`. -/
def expansion (units places : Nat) : Decimal :=
  ⟨units * Nat.pow 5 places, -(places : Int)⟩

/-- The fewest digits that read back as a positive magnitude, which stands for its units
divided by `2 ^ places`; the exact expansion closes the search. -/
def fewestDigits (places magnitude : Nat) : Decimal :=
  match (List.range 17).findSome? fun i =>
      withDigits? magnitude (unitsOf magnitude) (Nat.pow 2 places) (i + 1) with
  | some d => d.strip 20
  | none => (expansion (unitsOf magnitude) places).strip (places + 26)

/-- The fewest digits that read back as a positive magnitude.  Seventeen always suffice. -/
def shortest (magnitude : Nat) : Decimal :=
  fewestDigits 1074 magnitude

/-- A run of zeros. -/
def zeros (n : Nat) : List Char :=
  List.replicate n '0'

/-- Positional notation, with a point and at least one digit on either side of it. -/
def Decimal.positional (d : Decimal) : List Char :=
  let ds := Nat.toDigits 10 d.digits
  let point := (ds.length : Int) + d.exponent
  if 0 ≤ d.exponent then ds ++ zeros d.exponent.toNat ++ ['.', '0']
  else if 0 < point then ds.take point.toNat ++ '.' :: ds.drop point.toNat
  else '0' :: '.' :: (zeros (-point).toNat ++ ds)

/-- Scientific notation: one digit before the point, and no point after a single digit. -/
def Decimal.scientific (plus : Bool) (d : Decimal) : List Char :=
  let ds := Nat.toDigits 10 d.digits
  let order := (ds.length : Int) + d.exponent - 1
  let mantissa := match ds with
    | [] => []
    | [c] => [c]
    | c :: rest => c :: '.' :: rest
  let sign := if order < 0 then ['-'] else if plus then ['+'] else []
  mantissa ++ 'e' :: (sign ++ Nat.toDigits 10 order.natAbs)

def signed (d : Double) (body : List Char) : String :=
  String.ofList (if d.negative then '-' :: body else body)

/-- The text of a double: positional while the decimal exponent lies in `-5 .. 15`, else
scientific, with a plus sign before a positive exponent if asked for. -/
def text (plus : Bool) (d : Double) : String :=
  signed d <|
    if d.magnitude = 0 then ['0', '.', '0']
    else
      let short := shortest d.magnitude
      let point := (digitCount short.digits : Int) + short.exponent
      if -5 < point ∧ point ≤ 16 then short.positional else short.scientific plus

/-- The text of a double without any exponent. -/
def plainText (d : Double) : String :=
  signed d (if d.magnitude = 0 then ['0', '.', '0'] else (shortest d.magnitude).positional)

end Workplan.Double
