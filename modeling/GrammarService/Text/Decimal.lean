namespace GrammarService

/-!
# Decimal integers

Reading a whole text as an integer: an optional sign and then one or more ASCII digits, with a
value that lies within given bounds.
-/

namespace Text

/-- The value of a non-empty run of ASCII digits. -/
def digitsValue? (digits : List Char) : Option Nat :=
  if !digits.isEmpty && digits.all Char.isDigit then
    some (digits.foldl (fun value digit => 10 * value + (digit.toNat - '0'.toNat)) 0)
  else
    none

/-- The value of digits behind an optional sign. -/
def integer? : List Char → Option Int
  | '-' :: digits => (digitsValue? digits).map fun value => -(value : Int)
  | '+' :: digits => (digitsValue? digits).map Int.ofNat
  | digits => (digitsValue? digits).map Int.ofNat

/-- The smallest signed integer of 32 bits. -/
def minInt32 : Int :=
  -2147483648

/-- The largest signed integer of 32 bits. -/
def maxInt32 : Int :=
  2147483647

/-- The value of a text as a signed integer of 32 bits. -/
def int32? (text : List Char) : Option Int :=
  (integer? text).filter fun value =>
    decide (minInt32 ≤ value ∧ value ≤ maxInt32)

end Text

end GrammarService
