namespace GrammarService

/-!
# Sets of symbols as sorted ranges

An `IntervalSet` holds a set of integers as disjoint ranges in ascending order. Lexer networks
use it for character classes and parser networks for sets of token types.

Ranges that touch are always joined, so a set has exactly one form: `insertRange` is the only
operation that makes ranges, and it keeps them non-empty, ascending and apart by at least one
integer.
-/

/-- The integers from `first` through `last`, both included. -/
structure Interval where
  first : Int
  last : Int
  deriving Repr, DecidableEq, Inhabited

namespace Interval

/-- Whether `value` lies between the two ends. -/
def contains
    (interval : Interval)
    (value : Int) :
    Bool :=
  decide (interval.first ≤ value ∧ value ≤ interval.last)

/-- The members in ascending order. -/
def members (interval : Interval) : List Int :=
  (List.range (interval.last - interval.first + 1).toNat).map
    fun (step : Nat) => interval.first + (step : Int)

end Interval

/-- A set of integers, held as ascending ranges that neither overlap nor touch. -/
structure IntervalSet where
  intervals : List Interval
  deriving Repr, DecidableEq, Inhabited

namespace IntervalSet

/-- The set without members. -/
def empty : IntervalSet where
  intervals := []

/--
Insert the non-empty range `first` through `last` into ascending ranges.

A range that overlaps or touches the new one is swallowed by it, so the result is ascending
and apart again.
-/
def insertRange
    (first last : Int) :
    List Interval → List Interval
  | [] => [⟨first, last⟩]
  | head :: tail =>
      if head.last + 1 < first then
        head :: insertRange first last tail
      else if last + 1 < head.first then
        ⟨first, last⟩ :: head :: tail
      else
        insertRange (min first head.first) (max last head.last) tail

/-- Add every integer from `first` through `last`; a range that runs backwards adds nothing. -/
def addRange
    (symbols : IntervalSet)
    (first last : Int) :
    IntervalSet :=
  if last < first then
    symbols
  else
    ⟨insertRange first last symbols.intervals⟩

/-- Add one integer. -/
def add
    (symbols : IntervalSet)
    (value : Int) :
    IntervalSet :=
  symbols.addRange value value

/-- The set with exactly one member. -/
def singleton (value : Int) : IntervalSet :=
  empty.add value

/-- Whether `value` is a member: the first range that does not end below it decides. -/
def containsIn
    (value : Int) :
    List Interval → Bool
  | [] => false
  | head :: tail =>
      if head.last < value then
        containsIn value tail
      else
        decide (head.first ≤ value)

/-- Whether `value` is a member. -/
def contains
    (symbols : IntervalSet)
    (value : Int) :
    Bool :=
  containsIn value symbols.intervals

/-- Whether the set has no members. -/
def isEmpty (symbols : IntervalSet) : Bool :=
  symbols.intervals.isEmpty

/-- All members in ascending order. -/
def members (symbols : IntervalSet) : List Int :=
  symbols.intervals.flatMap Interval.members

/-- At most `limit` members of the ranges, lowest first, without listing the others. -/
def takeFrom : (limit : Nat) → List Interval → List Int
  | 0, _ => []
  | _, [] => []
  | limit + 1, head :: tail =>
      if head.last ≤ head.first then
        head.first :: takeFrom limit tail
      else
        head.first :: takeFrom limit (⟨head.first + 1, head.last⟩ :: tail)

/-- The `limit` lowest members, or all of them when there are fewer. -/
def take
    (symbols : IntervalSet)
    (limit : Nat) :
    List Int :=
  takeFrom limit symbols.intervals

/-- Add every member of `additions`. -/
def union
    (symbols additions : IntervalSet) :
    IntervalSet :=
  additions.intervals.foldl
    (fun union interval => union.addRange interval.first interval.last)
    symbols

/-- The ranges between `low` and `high` that ascending ranges leave free. -/
def gapsBetween
    (low high : Int) :
    List Interval → List Interval
  | [] => if low ≤ high then [⟨low, high⟩] else []
  | head :: tail =>
      let free := gapsBetween (max low (head.last + 1)) high tail
      if low ≤ min high (head.first - 1) then
        ⟨low, min high (head.first - 1)⟩ :: free
      else
        free

/-- The integers from `low` through `high` that are not members. -/
def complement
    (symbols : IntervalSet)
    (low high : Int) :
    IntervalSet :=
  ⟨gapsBetween low high symbols.intervals⟩

/-- The set without the member `value`. -/
def erase
    (symbols : IntervalSet)
    (value : Int) :
    IntervalSet where
  intervals :=
    symbols.intervals.flatMap fun interval =>
      if interval.contains value then
        (if interval.first < value then [⟨interval.first, value - 1⟩] else []) ++
          (if value < interval.last then [⟨value + 1, interval.last⟩] else [])
      else
        [interval]

end IntervalSet

end GrammarService
