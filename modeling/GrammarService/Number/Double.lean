namespace GrammarService

/-!
# Numbers of double precision

A double is a whole number below `2 ^ 53` times a power of two, or lies beyond all of these. A
fraction stands for the double nearest to it, and halfway between two doubles for the one whose
whole number is even.
-/

/-- A number of double precision. -/
inductive Double
  /-- A whole number times a power of two; a zero has a sign as well. -/
  | finite (negative : Bool) (significand : Nat) (exponent : Int)
  | infinite (negative : Bool)
  | notANumber
  deriving Repr, DecidableEq, Inhabited

namespace Double

/-- The least exponent of a double. -/
def minExponent : Int :=
  -1074

/-- The greatest exponent of a double. -/
def maxExponent : Int :=
  971

/-- The bound below which the whole numbers lie. -/
def significandBound : Nat :=
  9007199254740992

/-- Whether a double has a finite value. -/
def isFinite : Double → Bool
  | .finite _ _ _ => true
  | _ => false

/-- The whole number nearest to a fraction, and halfway between two the even one. -/
def nearest (numerator denominator : Nat) : Nat :=
  let quotient := numerator / denominator
  let twice := 2 * (numerator % denominator)
  if denominator < twice || (twice = denominator && quotient % 2 = 1) then
    quotient + 1
  else
    quotient

/-- The greatest power of two that a fraction, which is not zero, reaches. -/
def binaryOrder (numerator denominator : Nat) : Int :=
  let order : Int := (numerator.log2 : Int) - (denominator.log2 : Int)
  if denominator * Nat.pow 2 order.toNat ≤ numerator * Nat.pow 2 (-order).toNat then
    order
  else
    order - 1

/-- The double with a whole number and an exponent, where the bound counts as the next binade. -/
def normalized
    (negative : Bool)
    (significand : Nat)
    (exponent : Int) :
    Double :=
  if significand = significandBound then
    if maxExponent ≤ exponent then
      .infinite negative
    else
      .finite negative (significandBound / 2) (exponent + 1)
  else if maxExponent < exponent then
    .infinite negative
  else
    .finite negative significand exponent

/-- The double nearest to a fraction. -/
def ofFraction
    (negative : Bool)
    (numerator denominator : Nat) :
    Double :=
  if numerator = 0 then
    .finite negative 0 minExponent
  else
    let exponent := max minExponent (binaryOrder numerator denominator - 52)
    let significand :=
      nearest (numerator * Nat.pow 2 (-exponent).toNat) (denominator * Nat.pow 2 exponent.toNat)
    normalized negative significand exponent

end Double

/-- A whole number times a power of ten. -/
structure Decimal where
  digits : Nat
  scale : Int
  deriving Repr, DecidableEq, Inhabited

namespace Decimal

/-- How many digits a decimal has before its point; it is below that power of ten. -/
def order (decimal : Decimal) : Int :=
  (Nat.toDigits 10 decimal.digits).length + decimal.scale

/-- The order from which on every decimal is beyond the doubles. -/
def maxOrder : Int :=
  310

/-- The order up to which every decimal is nearer to zero than to another double. -/
def minOrder : Int :=
  -324

/-- The double nearest to a decimal behind a sign. -/
def toDouble
    (negative : Bool)
    (decimal : Decimal) :
    Double :=
  if decimal.digits = 0 || decimal.order ≤ minOrder then
    .ofFraction negative 0 1
  else if maxOrder ≤ decimal.order then
    .infinite negative
  else
    .ofFraction negative (decimal.digits * Nat.pow 10 decimal.scale.toNat)
      (Nat.pow 10 (-decimal.scale).toNat)

end Decimal

end GrammarService
