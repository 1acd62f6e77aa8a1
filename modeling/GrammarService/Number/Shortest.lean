import GrammarService.Number.Double

namespace GrammarService

/-!
# Showing numbers of double precision

A double is shown by the decimal with the fewest digits that stands for it, in positional notation.
Of two such decimals it is the nearer one, and the greater one if they are equally near.
-/

namespace Decimal

/-- The digits in positional notation, without zeros that do not count. -/
def positional (decimal : Decimal) : List Char :=
  let digits := Nat.toDigits 10 decimal.digits
  let significant := (digits.reverse.dropWhile (· = '0')).reverse
  let point := decimal.order
  if significant.isEmpty then
    ['0']
  else if point ≤ 0 then
    ['0', '.'] ++ List.replicate (-point).toNat '0' ++ significant
  else if significant.length ≤ point.toNat then
    significant ++ List.replicate (point.toNat - significant.length) '0'
  else
    significant.take point.toNat ++ ['.'] ++ significant.drop point.toNat

end Decimal

namespace Double

/-- The decimal that is equal to a whole number times a power of two. -/
def exactDecimal (significand : Nat) (exponent : Int) : Decimal where
  digits := significand * Nat.pow 2 exponent.toNat * Nat.pow 5 (-exponent).toNat
  scale := min exponent 0

/--
The decimal with the fewest digits that stands for a double without sign, among those that leave out
at most the given number of digits of the exact decimal.
-/
def shortestFrom
    (double : Double)
    (exact : Decimal) :
    Nat → Decimal
  | 0 => exact
  | omitted + 1 =>
      let unit := Nat.pow 10 (omitted + 1)
      let below : Decimal := ⟨exact.digits / unit, exact.scale + (omitted + 1 : Nat)⟩
      let above : Decimal := ⟨exact.digits / unit + 1, exact.scale + (omitted + 1 : Nat)⟩
      let isBelow : Bool := below.toDouble false = double
      let isAbove : Bool := above.toDouble false = double
      if isAbove && (!isBelow || unit ≤ 2 * (exact.digits % unit)) then
        above
      else if isBelow then
        below
      else
        shortestFrom double exact omitted

/-- The decimal with the fewest digits that stands for a double without sign. -/
def shortest (significand : Nat) (exponent : Int) : Decimal :=
  let exact := exactDecimal significand exponent
  shortestFrom (.finite false significand exponent) exact
    ((Nat.toDigits 10 exact.digits).length - 1)

/-- A double in positional notation. -/
def shown : Double → String
  | .finite negative significand exponent =>
      let digits :=
        if significand = 0 then ['0'] else (shortest significand exponent).positional
      String.ofList (if negative then '-' :: digits else digits)
  | .infinite negative => if negative then "-inf" else "inf"
  | .notANumber => "NaN"

end Double

end GrammarService
