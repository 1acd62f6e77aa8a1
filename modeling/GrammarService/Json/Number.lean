namespace GrammarService

/-!
# JSON numbers

A number is an optional minus sign, an integer without leading zeros, an optional fraction and an
optional exponent. It also has to be small enough for a double: read from its first digits, as
many as fit 64 bits, scaled by a power of ten.
-/

namespace Json.Number

/-- Split off the leading ASCII digits. -/
def takeDigits (text : List Char) : List Char × List Char :=
  text.span Char.isDigit

/-- The parts of a number as it is spelled. -/
structure Spelling where
  negative : Bool
  whole : List Char
  fraction : List Char
  exponentNegative : Bool
  exponent : List Char
  deriving Repr, DecidableEq

/-- Split off an integer without leading zeros. -/
def takeWhole? (text : List Char) : Option (List Char × List Char) :=
  match takeDigits text with
  | ([], _) => none
  | ('0' :: _ :: _, _) => none
  | whole => some whole

/-- Split off a fraction, if there is a point. -/
def takeFraction? : List Char → Option (List Char × List Char)
  | '.' :: rest =>
      match takeDigits rest with
      | ([], _) => none
      | fraction => some fraction
  | rest => some ([], rest)

/-- Split off the digits of an exponent behind its sign. -/
def takeExponentDigits?
    (negative : Bool)
    (text : List Char) :
    Option (Bool × List Char × List Char) :=
  match takeDigits text with
  | ([], _) => none
  | (digits, rest) => some (negative, digits, rest)

/-- Split off an exponent, if there is one. -/
def takeExponent? : List Char → Option (Bool × List Char × List Char)
  | [] => some (false, [], [])
  | mark :: rest =>
      if mark = 'e' || mark = 'E' then
        match rest with
        | '+' :: rest => takeExponentDigits? false rest
        | '-' :: rest => takeExponentDigits? true rest
        | rest => takeExponentDigits? false rest
      else
        some (false, [], mark :: rest)

/-- Split off a number behind its sign. -/
def takeUnsigned?
    (negative : Bool)
    (text : List Char) :
    Option (Spelling × List Char) := do
  let (whole, rest) ← takeWhole? text
  let (fraction, rest) ← takeFraction? rest
  let (exponentNegative, exponent, rest) ← takeExponent? rest
  return (⟨negative, whole, fraction, exponentNegative, exponent⟩, rest)

/-- Split off a number. -/
def take? : List Char → Option (Spelling × List Char)
  | '-' :: rest => takeUnsigned? true rest
  | text => takeUnsigned? false text

/-- The value of a digit. -/
def digitValue (digit : Char) : Nat :=
  digit.toNat - '0'.toNat

/-- The value of digits. -/
def digitsValue (digits : List Char) : Nat :=
  digits.foldl (fun value digit => 10 * value + digitValue digit) 0

/-- The largest integer of 64 bits. -/
def maxSignificand : Nat :=
  18446744073709551615

/--
Read digits behind a significand for as long as it fits 64 bits; the result also says how many
digits were left out.
-/
def readSignificand
    (significand : Nat) :
    List Char → Nat × Nat
  | [] => (significand, 0)
  | digit :: digits =>
      let next := 10 * significand + digitValue digit
      if maxSignificand < next then
        (significand, digits.length + 1)
      else
        readSignificand next digits

/-- The significand of a number and the power of ten it is to be scaled by, exponent left out. -/
def significand (spelling : Spelling) : Nat × Int :=
  match readSignificand 0 spelling.whole with
  | (whole, 0) =>
      let (value, omitted) := readSignificand whole spelling.fraction
      (value, -((spelling.fraction.length - omitted : Nat) : Int))
  | (whole, omitted) =>
      match readSignificand whole spelling.fraction with
      | (value, left) => (value, (omitted : Int) - ((spelling.fraction.length - left : Nat) : Int))

/-- Round an integer to the nearest one of 53 significant bits, a tie to the even one. -/
def roundToDouble (value : Nat) : Nat :=
  let width := value.log2 + 1
  if width ≤ 53 then
    value
  else
    let unit := Nat.pow 2 (width - 53)
    let quotient := value / unit
    let remainder := value % unit
    let roundsUp := unit < 2 * remainder || (2 * remainder = unit && quotient % 2 = 1)
    (if roundsUp then quotient + 1 else quotient) * unit

/-- The least integer that rounds to infinity instead of a double. -/
def overflowBound : Nat :=
  Nat.pow 2 1024 - Nat.pow 2 970

/-- Whether a significand scaled by a power of ten is finite as a double. -/
def isFinite
    (significand : Nat)
    (exponent : Int) :
    Bool :=
  if exponent ≤ 0 then
    true
  else if 308 < exponent then
    significand = 0
  else
    roundToDouble significand * roundToDouble (Nat.pow 10 exponent.toNat) < overflowBound

/-- The largest exponent that is read digit by digit. -/
def maxExponent : Int :=
  2147483647

/-- Whether a number is small enough for a double. -/
def fitsDouble (spelling : Spelling) : Bool :=
  let (value, scale) := significand spelling
  let exponent : Int := digitsValue spelling.exponent
  if maxExponent < exponent then
    value = 0 || spelling.exponentNegative
  else if spelling.exponentNegative then
    isFinite value (scale - exponent)
  else
    isFinite value (scale + exponent)

end Json.Number

end GrammarService
