import TagWire.Text.Binary

/-!
Decimal text of binary floating-point numbers: the fewest digits that lead back to the number, and
of those the nearest to it, always without an exponent.
-/

namespace TagWire

/-- A decimal number `digits * 10 ^ exponent`. -/
structure Decimal where
  digits : Nat
  exponent : Int
  deriving DecidableEq, Repr

namespace Decimal

/-- A number written out in full, with a point only if there are digits after it. -/
def text (decimal : Decimal) : String :=
  let digits := Nat.toDigits 10 decimal.digits
  match decimal.exponent with
  | .ofNat zeros => String.ofList (digits ++ List.replicate zeros '0')
  | .negSucc places =>
      let digits := List.replicate (places + 2 - digits.length) '0' ++ digits
      let whole := digits.length - (places + 1)
      String.ofList (digits.take whole ++ '.' :: digits.drop whole)

end Decimal

/-- The numbers that round to one floating-point number, all in units of `2 ^ exponent`: the
number itself and the ends of the interval, which belong to it if `closed`. -/
structure RoundingInterval where
  low : Nat
  value : Nat
  high : Nat
  closed : Bool
  exponent : Int
  deriving DecidableEq, Repr

namespace RoundingInterval

/-- The interval of a significand and an exponent. It reaches half-way to both neighbours, and they
round to even, so the ends belong to an even significand. -/
def around (significand : Nat) (exponent : Int) (narrowBelow : Bool) : RoundingInterval where
  low := if narrowBelow then 4 * significand - 1 else 4 * significand - 2
  value := 4 * significand
  high := 4 * significand + 2
  closed := significand % 2 = 0
  exponent := exponent - 2

/-- What to multiply a number of units by to count it in steps of the grid `10 ^ grid`, as a
numerator and a denominator. -/
def scale (interval : RoundingInterval) (grid : Int) : Nat × Nat :=
  (Nat.pow 10 (-grid).toNat <<< interval.exponent.toNat,
    Nat.pow 10 grid.toNat <<< (-interval.exponent).toNat)

/-- The point of a grid in the interval that is nearest to the number; of two equally near ones
the larger. Only the two points around the number can be it. -/
def nearest? (interval : RoundingInterval) (grid : Int) : Option Nat :=
  let (factor, unit) := interval.scale grid
  let value := interval.value * factor
  let below := value / unit
  let reaches (a b : Nat) := a < b || (interval.closed && a = b)
  let belowFits := reaches (interval.low * factor) (below * unit)
  let aboveFits := reaches ((below + 1) * unit) (interval.high * factor)
  if aboveFits && (!belowFits || (below + 1) * unit - value ≤ value - below * unit) then
    some (below + 1)
  else if belowFits then some below
  else none

/-- The nearest point of the coarsest grid that has one in the interval, from a first grid down;
`steps` bounds the grids that are tried. -/
def descend (interval : RoundingInterval) : (steps : Nat) → (grid : Int) → Decimal
  | 0, grid => ⟨(interval.nearest? grid).getD 0, grid⟩
  | steps + 1, grid =>
      match interval.nearest? grid with
      | some digits => ⟨digits, grid⟩
      | none => descend interval steps (grid - 1)

/-- The shortest decimal number in the interval. The first grid is coarser than the whole interval,
since a power of ten has more than three bits. -/
def shortest (interval : RoundingInterval) : Decimal :=
  let bits := interval.exponent + Nat.log2 interval.high + 1
  interval.descend 64 (bits * 30103 / 100000 + 2)

end RoundingInterval

namespace FloatFormat

/-- The text of a bit pattern. The sign of zero is kept, that of a NaN is not. -/
def text (format : FloatFormat) (bits : Nat) : String :=
  let sign (negative : Bool) := if negative then "-" else ""
  match format.classify bits with
  | .nan => "NaN"
  | .infinite negative => sign negative ++ "inf"
  | .finite negative significand exponent narrowBelow =>
      sign negative ++
        if significand = 0 then "0"
        else (RoundingInterval.around significand exponent narrowBelow).shortest.text

end FloatFormat

end TagWire
