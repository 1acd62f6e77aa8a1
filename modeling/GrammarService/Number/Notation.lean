import GrammarService.Number.Double
import GrammarService.Text.Decimal

namespace GrammarService

/-!
# Reading numbers of double precision

A number is an optional sign, digits with an optional point before, between or behind them, and an
optional exponent.
-/

namespace Double

/-- The value of an exponent with its mark, which can be absent. -/
def exponent? : List Char → Option Int
  | [] => some 0
  | mark :: rest => if mark = 'e' || mark = 'E' then Text.integer? rest else none

/-- The number in decimal notation behind a sign. -/
def readUnsigned?
    (negative : Bool)
    (text : List Char) :
    Option Double := do
  let (whole, rest) := text.span Char.isDigit
  let (fraction, rest) :=
    match rest with
    | '.' :: rest => rest.span Char.isDigit
    | rest => ([], rest)
  let digits ← Text.digitsValue? (whole ++ fraction)
  let exponent ← exponent? rest
  return Decimal.toDouble negative ⟨digits, exponent - (fraction.length : Int)⟩

/-- The number that a text in decimal notation stands for. -/
def read? : List Char → Option Double
  | '-' :: rest => readUnsigned? true rest
  | '+' :: rest => readUnsigned? false rest
  | rest => readUnsigned? false rest

end Double

end GrammarService
