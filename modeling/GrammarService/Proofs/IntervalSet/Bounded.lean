import GrammarService.Proofs.IntervalSet.Canonical

namespace GrammarService

/-!
# Sets of 32-bit integers

Symbols have 32 bits, so a range may end at the greatest integer, which has no successor. A
`BoundedSet` holds ranges of such integers. It finds the place of a new range by halving, and one
step behind the greatest integer is that integer again. All the same it always mirrors the set of
unbounded integers that the same additions make: the ranges, the members and their order are the
same, and at both ends of the 32 bits ranges are joined as they are elsewhere. Main statement:
`additions_canonical`.
-/

/-! ## Members of ascending ranges -/

namespace Interval

theorem mem_members_iff
    {interval : Interval}
    {value : Int} :
    value ∈ interval.members ↔ interval.first ≤ value ∧ value ≤ interval.last := by
  unfold members
  rw [List.mem_map]
  constructor
  · rintro ⟨step, inRange, rfl⟩
    rw [List.mem_range] at inRange
    omega
  · rintro ⟨begins, ends⟩
    refine ⟨(value - interval.first).toNat, List.mem_range.mpr ?_, ?_⟩ <;> omega

/-- The members of a range ascend. -/
theorem pairwise_members (interval : Interval) : interval.members.Pairwise (· < ·) := by
  refine List.Pairwise.map _ ?_ List.pairwise_lt_range
  intro earlier later before
  omega

/-- A range that is not a single integer begins with one and goes on behind it. -/
theorem members_of_lt
    {first last : Int}
    (before : first < last) :
    members ⟨first, last⟩ = first :: members ⟨first + 1, last⟩ := by
  obtain ⟨distance, rfl⟩ := Int.le.dest before.le
  have isCount : (first + distance - first + 1).toNat = distance + 1 := by omega
  have isCount' : (first + distance - (first + 1) + 1).toNat = distance := by omega
  simp only [members, isCount, isCount', List.range_succ_eq_map, List.map_cons, List.map_map,
    Nat.cast_zero, add_zero, List.cons.injEq, true_and]
  refine List.map_congr_left fun step _ => ?_
  simp only [Function.comp_apply, Nat.succ_eq_add_one]
  omega

theorem members_self (value : Int) : members ⟨value, value⟩ = [value] := by
  simp [members]

end Interval

namespace IntervalSet

theorem mem_members_iff
    {symbols : IntervalSet}
    {value : Int} :
    value ∈ symbols.members ↔ Holds symbols.intervals value := by
  simp [members, Holds, Interval.mem_members_iff]

/-- The members of canonical ranges ascend. -/
theorem IsCanonical.pairwise_members
    {symbols : IntervalSet}
    (canonical : IsCanonical symbols.intervals) :
    symbols.members.Pairwise (· < ·) := by
  unfold members
  rw [List.pairwise_flatMap]
  refine ⟨fun range _ => range.pairwise_members, canonical.apart.imp ?_⟩
  intro earlier later apart value isEarlier value' isLater
  rw [Interval.mem_members_iff] at isEarlier isLater
  omega

/-- Canonical ranges have no member before the first one begins. -/
theorem IsCanonical.le_of_holds
    {head : Interval}
    {others : List Interval}
    (canonical : IsCanonical (head :: others))
    {value : Int}
    (holds : Holds (head :: others) value) :
    head.first ≤ value := by
  have ordered := canonical.ordered head List.mem_cons_self
  rcases holds_cons_iff.mp holds with ⟨begins, _⟩ | ⟨range, isBehind, begins, _⟩
  · exact begins
  · have apart := canonical.last_lt isBehind
    omega

/-- Of the members that follow the first one without a gap the first range has all. -/
theorem IsCanonical.last_eq
    {first : Interval}
    {others : List Interval}
    (canonical : IsCanonical (first :: others)) :
    Holds (first :: others) first.last ∧ ¬ Holds (first :: others) (first.last + 1) := by
  have ordered := canonical.ordered first List.mem_cons_self
  refine ⟨holds_cons_iff.mpr (.inl ⟨ordered, le_rfl⟩), ?_⟩
  rw [holds_cons_iff]
  rintro (⟨_, ends⟩ | ⟨range, isBehind, begins, _⟩)
  · omega
  · have apart := canonical.last_lt isBehind
    omega

/-- Only what follows the first range lies behind its end. -/
theorem IsCanonical.holds_tail_iff
    {head : Interval}
    {others : List Interval}
    (canonical : IsCanonical (head :: others))
    (value : Int) :
    Holds others value ↔ Holds (head :: others) value ∧ head.last < value := by
  rw [holds_cons_iff]
  constructor
  · rintro ⟨range, isBehind, begins, ends⟩
    have apart := canonical.last_lt isBehind
    exact ⟨.inr ⟨range, isBehind, begins, ends⟩, by omega⟩
  · rintro ⟨⟨_, ends⟩ | isBehind, beyond⟩
    · omega
    · exact isBehind

/-- Canonical ranges are determined by what they hold. -/
theorem IsCanonical.eq_of_holds_iff
    {ranges ranges' : List Interval}
    (canonical : IsCanonical ranges)
    (canonical' : IsCanonical ranges')
    (same : ∀ value, Holds ranges value ↔ Holds ranges' value) :
    ranges = ranges' := by
  induction ranges generalizing ranges' with
  | nil =>
      cases ranges' with
      | nil => rfl
      | cons head' tail' => exact absurd ((same _).mpr canonical'.last_eq.1) (by simp [Holds])
  | cons head tail inductionHypothesis =>
      cases ranges' with
      | nil => exact absurd ((same _).mp canonical.last_eq.1) (by simp [Holds])
      | cons head' tail' =>
          have ordered := canonical.ordered head List.mem_cons_self
          have ordered' := canonical'.ordered head' List.mem_cons_self
          have sameFirst : head.first = head'.first := by
            have holds : Holds (head :: tail) head.first :=
              holds_cons_iff.mpr (.inl ⟨le_rfl, ordered⟩)
            have holds' : Holds (head' :: tail') head'.first :=
              holds_cons_iff.mpr (.inl ⟨le_rfl, ordered'⟩)
            exact le_antisymm (canonical.le_of_holds ((same _).mpr holds'))
              (canonical'.le_of_holds ((same _).mp holds))
          -- Where one of the ranges ended first, the other one would hold what comes behind it.
          have sameLast : head.last = head'.last := by
            rcases lt_trichotomy head.last head'.last with before | same' | behind
            · refine absurd ((same _).mpr (holds_cons_iff.mpr (.inl ?_))) canonical.last_eq.2
              omega
            · exact same'
            · refine absurd ((same _).mp (holds_cons_iff.mpr (.inl ?_))) canonical'.last_eq.2
              omega
          obtain rfl : head = head' := by
            cases head
            cases head'
            simp_all
          congr 1
          refine inductionHypothesis canonical.tail canonical'.tail fun value => ?_
          rw [canonical.holds_tail_iff, canonical'.holds_tail_iff, same]

end IntervalSet

/-! ## Searching by halving -/

/-- The first position from `low` to `high` whose item comes before nothing any more, by halving. -/
def searchBetween
    (isBefore : α → Bool)
    (items : List α)
    (low high : Nat) :
    Nat :=
  if low < high then
    let middle := low + (high - low) / 2
    if (items[middle]?).any isBefore then
      searchBetween isBefore items (middle + 1) high
    else
      searchBetween isBefore items low middle
  else
    low
termination_by high - low

/-- How many items come before, if all that do stand in front of all that do not. -/
def partitionPoint
    (isBefore : α → Bool)
    (items : List α) :
    Nat :=
  searchBetween isBefore items 0 items.length

section Searching

variable
  {isBefore : α → Bool}
  {items : List α}
  (partitioned :
    items.Pairwise fun earlier later => isBefore later = true → isBefore earlier = true)

include partitioned

theorem any_getElem?_iff (position : Nat) :
    (items[position]?).any isBefore = true ↔ position < (items.takeWhile isBefore).length := by
  induction items generalizing position with
  | nil => simp
  | cons head tail inductionHypothesis =>
      obtain ⟨isFirst, partitionedTail⟩ := List.pairwise_cons.mp partitioned
      cases isHead : isBefore head with
      | true =>
          rw [List.takeWhile_cons_of_pos isHead, List.length_cons]
          cases position with
          | zero => simp [isHead]
          | succ position =>
              rw [List.getElem?_cons_succ, inductionHypothesis partitionedTail]
              omega
      | false =>
          rw [List.takeWhile_cons_of_neg (by simp [isHead])]
          simp only [List.length_nil, Nat.not_lt_zero, iff_false, Bool.not_eq_true,
            Option.any_eq_false]
          intro item isItem
          rcases List.mem_cons.mp (List.mem_of_getElem? isItem) with rfl | isBehind
          · simp [isHead]
          · rw [← Bool.not_eq_true]
            intro isItemBefore
            simp [isFirst item isBehind isItemBefore] at isHead

/-- Halving finds the point where the items are parted. -/
theorem searchBetween_eq
    {low high : Nat}
    (least : low ≤ (items.takeWhile isBefore).length)
    (most : (items.takeWhile isBefore).length ≤ high) :
    searchBetween isBefore items low high = (items.takeWhile isBefore).length := by
  fun_induction searchBetween isBefore items low high with
  | case1 low high _ middle isMiddle inductionHypothesis =>
      have inside := (any_getElem?_iff partitioned middle).mp isMiddle
      exact inductionHypothesis inside most
  | case2 low high _ middle notMiddle inductionHypothesis =>
      have outside := mt (any_getElem?_iff partitioned middle).mpr notMiddle
      exact inductionHypothesis least (Nat.le_of_not_lt outside)
  | case3 low high empty => omega

theorem partitionPoint_eq :
    partitionPoint isBefore items = (items.takeWhile isBefore).length :=
  searchBetween_eq partitioned (Nat.zero_le _) (List.takeWhile_sublist _).length_le

theorem take_partitionPoint :
    items.take (partitionPoint isBefore items) = items.takeWhile isBefore := by
  rw [partitionPoint_eq partitioned]
  exact (List.prefix_iff_eq_take.mp (List.takeWhile_prefix isBefore)).symm

theorem drop_partitionPoint :
    items.drop (partitionPoint isBefore items) = items.dropWhile isBefore := by
  have parts := List.take_append_drop (partitionPoint isBefore items) items
  rw [take_partitionPoint partitioned] at parts
  exact List.append_cancel_left (parts.trans List.takeWhile_append_dropWhile.symm)

end Searching

/-! ## Ranges of 32-bit integers -/

/-- The integer behind another one; behind the greatest one it is that one again. -/
def stepUp (value : Int32) : Int32 :=
  if value < Int32.maxValue then value + 1 else value

theorem toInt_stepUp (value : Int32) :
    (stepUp value).toInt = min (value.toInt + 1) Int32.maxValue.toInt := by
  have least := value.le_toInt
  have most := value.toInt_le
  unfold stepUp
  split
  · rename_i below
    rw [Int32.lt_iff_toInt_lt] at below
    have noOverflow : (value.toInt + 1).bmod (2 ^ 32) = value.toInt + 1 := by
      rw [Int32.toInt_maxValue] at below
      exact Int.bmod_eq_of_le (by omega) (by omega)
    rw [Int32.toInt_add, Int32.toInt_one, noOverflow]
    omega
  · rename_i greatest
    rw [Int32.lt_iff_toInt_lt] at greatest
    omega

/-- A step that stops at the greatest integer tells what comes before as an exact step does. -/
theorem stepUp_lt_iff
    {last value : Int32} :
    stepUp last < value ↔ last.toInt + 1 < value.toInt := by
  have most := value.toInt_le
  rw [Int32.lt_iff_toInt_lt, toInt_stepUp]
  omega

/-- It also tells what touches as an exact step does. -/
theorem le_stepUp_iff
    {value last : Int32} :
    value ≤ stepUp last ↔ ¬ last.toInt + 1 < value.toInt := by
  have most := value.toInt_le
  rw [Int32.le_iff_toInt_le, toInt_stepUp]
  omega

/-- Before a greater integer a step is exact. -/
theorem toInt_stepUp_of_lt
    {value greater : Int32}
    (below : value < greater) :
    (stepUp value).toInt = value.toInt + 1 := by
  have most := greater.toInt_le
  rw [Int32.lt_iff_toInt_lt] at below
  rw [toInt_stepUp]
  omega

/-- The 32-bit integers from `first` through `last`, both included. -/
structure BoundedInterval where
  first : Int32
  last : Int32
  deriving DecidableEq

namespace BoundedInterval

/-- The range as one of unbounded integers. -/
def exact (interval : BoundedInterval) : Interval where
  first := interval.first.toInt
  last := interval.last.toInt

@[simp]
theorem first_exact (interval : BoundedInterval) : interval.exact.first = interval.first.toInt :=
  rfl

@[simp]
theorem last_exact (interval : BoundedInterval) : interval.exact.last = interval.last.toInt :=
  rfl

theorem exact_injective : Function.Injective exact := by
  rintro ⟨first, last⟩ ⟨first', last'⟩ same
  simpa [exact, Int32.toInt_inj] using same

/-- The integers from `first` through `last`, one after the other. -/
def membersFrom (first last : Int32) : List Int32 :=
  if first < last then
    first :: membersFrom (stepUp first) last
  else if first = last then
    [first]
  else
    []
termination_by (last.toInt - first.toInt).toNat
decreasing_by
  rename_i below
  rw [toInt_stepUp_of_lt below]
  rw [Int32.lt_iff_toInt_lt] at below
  omega

/-- All members in ascending order. -/
def members (interval : BoundedInterval) : List Int32 :=
  membersFrom interval.first interval.last

theorem map_membersFrom
    {first last : Int32}
    (ordered : first ≤ last) :
    (membersFrom first last).map Int32.toInt = Interval.members ⟨first.toInt, last.toInt⟩ := by
  fun_induction membersFrom first last with
  | case1 first below inductionHypothesis =>
      have next : stepUp first ≤ last := by
        rw [Int32.le_iff_toInt_le, toInt_stepUp_of_lt below]
        exact Int32.lt_iff_toInt_lt.mp below
      rw [List.map_cons, inductionHypothesis next, toInt_stepUp_of_lt below,
        Interval.members_of_lt (Int32.lt_iff_toInt_lt.mp below)]
  | case2 => simp [Interval.members_self]
  | case3 first notBelow notSame =>
      rw [Int32.lt_iff_toInt_lt] at notBelow
      rw [Int32.le_iff_toInt_le] at ordered
      rw [← Int32.toInt_inj] at notSame
      omega

end BoundedInterval

/-- A set of 32-bit integers, held as ascending ranges that neither overlap nor touch. -/
structure BoundedSet where
  ranges : List BoundedInterval
  deriving DecidableEq

namespace BoundedSet

/-- The set without members. -/
def empty : BoundedSet where
  ranges := []

/-- Join a range with all that it overlaps or touches, as long as the next one does. -/
def absorb
    (range : BoundedInterval) :
    List BoundedInterval → List BoundedInterval
  | [] => [range]
  | head :: tail =>
      if head.first ≤ stepUp range.last then
        absorb ⟨min range.first head.first, max range.last head.last⟩ tail
      else
        range :: head :: tail

/-- Add every integer from `first` through `last`; a range that runs backwards adds nothing. -/
def addRange
    (set : BoundedSet)
    (first last : Int32) :
    BoundedSet :=
  if last < first then
    set
  else
    let position := partitionPoint (fun range => stepUp range.last < first) set.ranges
    ⟨set.ranges.take position ++ absorb ⟨first, last⟩ (set.ranges.drop position)⟩

/-- Add one integer. -/
def add
    (set : BoundedSet)
    (value : Int32) :
    BoundedSet :=
  set.addRange value value

/-- Whether `value` is a member: the first range that does not end below it decides. -/
def contains
    (set : BoundedSet)
    (value : Int32) :
    Bool :=
  let position := partitionPoint (fun range => range.last < value) set.ranges
  match set.ranges[position]? with
  | some range => range.first ≤ value
  | none => false

/-- All members in ascending order. -/
def members (set : BoundedSet) : List Int32 :=
  set.ranges.flatMap BoundedInterval.members

/-- The set as one of unbounded integers. -/
def exact (set : BoundedSet) : IntervalSet where
  intervals := set.ranges.map BoundedInterval.exact

/-! ### The same ranges -/

theorem toInt_min (first second : Int32) :
    (min first second).toInt = min first.toInt second.toInt := by
  have isMin : min first second = if first ≤ second then first else second := rfl
  rw [isMin]
  split <;> rename_i order <;> rw [Int32.le_iff_toInt_le] at order <;> omega

theorem toInt_max (first second : Int32) :
    (max first second).toInt = max first.toInt second.toInt := by
  have isMax : max first second = if first ≤ second then second else first := rfl
  rw [isMax]
  split <;> rename_i order <;> rw [Int32.le_iff_toInt_le] at order <;> omega

variable {set : BoundedSet} (canonical : IntervalSet.IsCanonical set.exact.intervals)

/-- Joining ranges is inserting one where no other ends before it. -/
theorem map_absorb
    {range : BoundedInterval}
    {ranges : List BoundedInterval}
    (notBefore : ∀ other ∈ ranges, ¬ other.last.toInt + 1 < range.first.toInt) :
    (absorb range ranges).map BoundedInterval.exact =
      IntervalSet.insertRange range.first.toInt range.last.toInt
        (ranges.map BoundedInterval.exact) := by
  induction ranges generalizing range with
  | nil => rfl
  | cons head tail inductionHypothesis =>
      have notBeforeHead := notBefore head List.mem_cons_self
      rw [absorb, List.map_cons, IntervalSet.insertRange, BoundedInterval.last_exact,
        BoundedInterval.first_exact, if_neg notBeforeHead]
      by_cases touches : head.first ≤ stepUp range.last
      · have joined : ∀ other ∈ tail,
            ¬ other.last.toInt + 1 < (min range.first head.first).toInt := by
          intro other isBehind
          have notBeforeOther := notBefore other (List.mem_cons_of_mem head isBehind)
          rw [toInt_min]
          omega
        have inserted :=
          @inductionHypothesis ⟨min range.first head.first, max range.last head.last⟩ joined
        rw [if_pos touches, if_neg (le_stepUp_iff.mp touches), inserted, toInt_min, toInt_max]
      · rw [if_neg touches, if_pos (not_not.mp (mt le_stepUp_iff.mpr touches))]
        rfl

/-- A range is inserted behind those that end before it, where it is joined with what follows. -/
theorem map_insert
    {first last : Int32}
    {ranges : List BoundedInterval}
    (canonical : IntervalSet.IsCanonical (ranges.map BoundedInterval.exact)) :
    (ranges.takeWhile (fun range => stepUp range.last < first) ++
        absorb ⟨first, last⟩
          (ranges.dropWhile fun range => stepUp range.last < first)).map BoundedInterval.exact =
      IntervalSet.insertRange first.toInt last.toInt (ranges.map BoundedInterval.exact) := by
  induction ranges with
  | nil => rfl
  | cons head tail inductionHypothesis =>
      by_cases before : stepUp head.last < first
      · rw [List.takeWhile_cons_of_pos (by simpa using before),
          List.dropWhile_cons_of_pos (by simpa using before), List.cons_append, List.map_cons,
          inductionHypothesis canonical.tail, List.map_cons, IntervalSet.insertRange]
        exact (if_pos (stepUp_lt_iff.mp before)).symm
      · have notBefore : ∀ other ∈ head :: tail, ¬ other.last.toInt + 1 < first.toInt := by
          have notBeforeHead := mt stepUp_lt_iff.mpr before
          intro other isOther
          rcases List.mem_cons.mp isOther with rfl | isBehind
          · exact notBeforeHead
          · have isBehind := List.mem_map_of_mem (f := BoundedInterval.exact) isBehind
            have apart := canonical.last_lt isBehind
            have ordered := canonical.tail.ordered _ isBehind
            simp only [BoundedInterval.first_exact, BoundedInterval.last_exact] at apart ordered
            omega
        rw [List.takeWhile_cons_of_neg (by simpa using before),
          List.dropWhile_cons_of_neg (by simpa using before), List.nil_append, map_absorb notBefore]

include canonical

/-- What lies before some place stands in front of what does not. -/
theorem partitioned_of_last_lt
    {isBefore : BoundedInterval → Bool}
    (mono :
      ∀ {earlier later : BoundedInterval},
        earlier.last.toInt < later.last.toInt → isBefore later = true → isBefore earlier = true) :
    set.ranges.Pairwise fun earlier later => isBefore later = true → isBefore earlier = true := by
  have apart := List.pairwise_map.mp canonical.apart
  refine apart.imp_of_mem fun {earlier later} _ isLater before => ?_
  have ordered := canonical.ordered _ (List.mem_map_of_mem (f := BoundedInterval.exact) isLater)
  simp only [BoundedInterval.first_exact, BoundedInterval.last_exact] at before ordered
  exact mono (by omega)

/-- Adding a range adds it to the set of unbounded integers. -/
theorem exact_addRange (first last : Int32) :
    (set.addRange first last).exact = set.exact.addRange first.toInt last.toInt := by
  unfold addRange IntervalSet.addRange
  by_cases backwards : last < first
  · rw [if_pos backwards, if_pos (Int32.lt_iff_toInt_lt.mp backwards)]
  · have isBefore_mono :
        ∀ {earlier later : BoundedInterval},
          earlier.last.toInt < later.last.toInt →
            decide (stepUp later.last < first) = true →
              decide (stepUp earlier.last < first) = true := by
      intro earlier later order before
      simp only [decide_eq_true_eq, stepUp_lt_iff] at before ⊢
      omega
    have partitioned := partitioned_of_last_lt canonical isBefore_mono
    rw [if_neg backwards, if_neg (mt Int32.lt_iff_toInt_lt.mpr backwards)]
    simp only [take_partitionPoint partitioned, drop_partitionPoint partitioned, exact,
      map_insert canonical]

omit canonical in
/-- The first range that does not end before a value decides whether it is found. -/
theorem containsIn_map
    (value : Int32)
    (ranges : List BoundedInterval) :
    IntervalSet.containsIn value.toInt (ranges.map BoundedInterval.exact) =
      match (ranges.dropWhile fun range => range.last < value).head? with
      | some range => decide (range.first ≤ value)
      | none => false := by
  induction ranges with
  | nil => rfl
  | cons head tail inductionHypothesis =>
      rw [List.map_cons, IntervalSet.containsIn, BoundedInterval.last_exact]
      by_cases before : head.last < value
      · rw [if_pos (Int32.lt_iff_toInt_lt.mp before), inductionHypothesis,
          List.dropWhile_cons_of_pos (by simpa using before)]
      · rw [if_neg (mt Int32.lt_iff_toInt_lt.mpr before),
          List.dropWhile_cons_of_neg (by simpa using before)]
        exact decide_eq_decide.mpr Int32.le_iff_toInt_le.symm

/-- The same integers are found. -/
theorem contains_exact (value : Int32) :
    set.exact.contains value.toInt = set.contains value := by
  have isBefore_mono :
      ∀ {earlier later : BoundedInterval},
        earlier.last.toInt < later.last.toInt →
          decide (later.last < value) = true → decide (earlier.last < value) = true := by
    intro earlier later order before
    simp only [decide_eq_true_eq, Int32.lt_iff_toInt_lt] at before ⊢
    omega
  have partitioned := partitioned_of_last_lt canonical isBefore_mono
  unfold contains
  dsimp only
  rw [← List.head?_drop, drop_partitionPoint partitioned]
  exact containsIn_map value set.ranges

/-- The members are the same, in the same order. -/
theorem map_members : set.members.map Int32.toInt = set.exact.members := by
  unfold members IntervalSet.members exact
  rw [List.map_flatMap, List.flatMap_map]
  refine List.flatMap_congr fun range isRange => ?_
  have ordered := canonical.ordered _ (List.mem_map_of_mem (f := BoundedInterval.exact) isRange)
  exact BoundedInterval.map_membersFrom (Int32.le_iff_toInt_le.mpr ordered)

end BoundedSet

/-! ## Sequences of additions -/

/-- A call that adds to a set of 32-bit integers. -/
inductive Addition
  | single (value : Int32)
  | range (first last : Int32)

namespace Addition

/-- The call adds an integer. -/
def Adds : Addition → Int32 → Prop
  | .single added, value => value = added
  | .range first last, value => first ≤ value ∧ value ≤ last

/-- A set of 32-bit integers behind the call. -/
def perform
    (set : BoundedSet) :
    Addition → BoundedSet
  | .single value => set.add value
  | .range first last => set.addRange first last

/-- A set of unbounded integers behind the call. -/
def performExact
    (symbols : IntervalSet) :
    Addition → IntervalSet
  | .single value => symbols.add value.toInt
  | .range first last => symbols.addRange first.toInt last.toInt

end Addition

/-- The set of 32-bit integers that a sequence of calls makes. -/
def BoundedSet.ofAdditions (additions : List Addition) : BoundedSet :=
  additions.foldl Addition.perform BoundedSet.empty

/-- The set of unbounded integers that a sequence of calls makes. -/
def IntervalSet.ofAdditions (additions : List Addition) : IntervalSet :=
  additions.foldl Addition.performExact IntervalSet.empty

namespace BoundedSet

open IntervalSet (IsCanonical)

/-- One call keeps ranges canonical, and does the same to both kinds of sets. -/
theorem exact_perform
    {set : BoundedSet}
    (canonical : IsCanonical set.exact.intervals)
    (addition : Addition) :
    (addition.perform set).exact = addition.performExact set.exact ∧
      IsCanonical (addition.perform set).exact.intervals := by
  cases addition with
  | single value =>
      have same := exact_addRange canonical value value
      refine ⟨same, ?_⟩
      rw [Addition.perform, add, same]
      exact canonical.addRange value.toInt value.toInt
  | range first last =>
      have same := exact_addRange canonical first last
      refine ⟨same, ?_⟩
      rw [Addition.perform, same]
      exact canonical.addRange first.toInt last.toInt

/-- One call adds the integers that it names. -/
theorem contains_perform_iff
    {set : BoundedSet}
    (canonical : IsCanonical set.exact.intervals)
    (addition : Addition)
    (value : Int32) :
    (addition.perform set).contains value = true ↔
      set.contains value = true ∨ addition.Adds value := by
  obtain ⟨same, canonical'⟩ := exact_perform canonical addition
  rw [← contains_exact canonical', same, ← contains_exact canonical]
  cases addition with
  | single added =>
      rw [Addition.performExact, IntervalSet.contains_add_iff canonical, Int32.toInt_inj,
        Addition.Adds]
  | range first last =>
      rw [Addition.performExact, IntervalSet.contains_addRange_iff canonical, Addition.Adds,
        Int32.le_iff_toInt_le, Int32.le_iff_toInt_le]

/-- What a sequence of calls makes of 32-bit integers, it makes of unbounded ones. -/
theorem exact_ofAdditions (additions : List Addition) :
    (ofAdditions additions).exact = IntervalSet.ofAdditions additions ∧
      IsCanonical (ofAdditions additions).exact.intervals ∧
      ∀ value,
        (ofAdditions additions).contains value = true ↔
          ∃ addition ∈ additions, addition.Adds value := by
  induction additions using List.reverseRecOn with
  | nil => exact ⟨rfl, .nil, fun value => by simp [ofAdditions, empty, contains]⟩
  | append_singleton earlier last inductionHypothesis =>
      obtain ⟨same, canonical, holds⟩ := inductionHypothesis
      obtain ⟨sameLast, canonicalLast⟩ := exact_perform canonical last
      have isLast : ofAdditions (earlier ++ [last]) = last.perform (ofAdditions earlier) :=
        List.foldl_concat ..
      refine ⟨?_, isLast ▸ canonicalLast, fun value => ?_⟩
      · rw [isLast, sameLast, same]
        exact (List.foldl_concat ..).symm
      · rw [isLast, contains_perform_iff canonical, holds]
        simp [or_and_right, exists_or]

/-- A set of 32-bit integers has the ranges, answers and members of one of unbounded ones. -/
structure Mirrors
    (set : BoundedSet)
    (symbols : IntervalSet) :
    Prop where
  ranges : set.ranges.map BoundedInterval.exact = symbols.intervals
  contains : ∀ value : Int32, set.contains value = symbols.contains value.toInt
  members : set.members.map Int32.toInt = symbols.members

theorem mirrors_exact
    {set : BoundedSet}
    (canonical : IsCanonical set.exact.intervals) :
    set.Mirrors set.exact where
  ranges := rfl
  contains := fun value => (contains_exact canonical value).symm
  members := map_members canonical

/-- Ranges of 32-bit integers hold the integers that are found among them, and nothing beyond. -/
theorem holds_exact_iff
    {set : BoundedSet}
    (canonical : IsCanonical set.exact.intervals)
    (value : Int) :
    IntervalSet.Holds set.exact.intervals value ↔
      ∃ member : Int32, member.toInt = value ∧ set.contains member = true := by
  have found (member : Int32) :
      set.contains member = true ↔ IntervalSet.Holds set.exact.intervals member.toInt := by
    rw [← contains_exact canonical, ← IntervalSet.containsIn_iff canonical]
    rfl
  constructor
  · intro holds
    have ⟨range, isRange, begins, ends⟩ := holds
    obtain ⟨bounded, _, rfl⟩ := List.mem_map.mp isRange
    have least := bounded.first.le_toInt
    have most := bounded.last.toInt_lt
    rw [BoundedInterval.first_exact] at begins
    rw [BoundedInterval.last_exact] at ends
    have isMember : (Int32.ofInt value).toInt = value :=
      Int32.toInt_ofInt_of_le (by omega) (by omega)
    exact ⟨Int32.ofInt value, isMember, (found _).mpr (isMember.symm ▸ holds)⟩
  · rintro ⟨member, rfl, isFound⟩
    exact (found member).mp isFound

/-- Sets are the same if the same integers are found in them. -/
theorem eq_of_contains
    {set set' : BoundedSet}
    (canonical : IsCanonical set.exact.intervals)
    (canonical' : IsCanonical set'.exact.intervals)
    (same : ∀ value, set.contains value = set'.contains value) :
    set = set' := by
  have sameRanges : set.exact.intervals = set'.exact.intervals := by
    refine canonical.eq_of_holds_iff canonical' fun value => ?_
    rw [holds_exact_iff canonical, holds_exact_iff canonical']
    simp only [same]
  obtain ⟨ranges⟩ := set
  obtain ⟨ranges'⟩ := set'
  exact congrArg BoundedSet.mk (BoundedInterval.exact_injective.list_map sameRanges)

/-- The members of a set ascend, and are the integers that are found. -/
theorem members_spec
    {set : BoundedSet}
    (canonical : IsCanonical set.exact.intervals) :
    set.members.Pairwise (· < ·) ∧
      ∀ value, value ∈ set.members ↔ set.contains value = true := by
  have mirrored := map_members canonical
  constructor
  · have ascending := canonical.pairwise_members
    rw [← mirrored, List.pairwise_map] at ascending
    exact ascending.imp Int32.lt_iff_toInt_lt.mpr
  · intro value
    rw [← contains_exact canonical, ← List.mem_map_of_injective (fun _ _ => Int32.toInt_inj.mp),
      mirrored, IntervalSet.mem_members_iff, ← IntervalSet.containsIn_iff canonical]
    rfl

/--
Whatever integers and ranges of 32 bits are added, in whatever order: the ranges of the set are
those of the set of unbounded integers with the same additions, they are not empty, ascend, and are
apart by at least one integer; an integer is found exactly if it was added; the members are listed
once each, in ascending order; and two sets are equal exactly if they have the same members.
-/
theorem additions_canonical (additions : List Addition) :
    (ofAdditions additions).Mirrors (IntervalSet.ofAdditions additions) ∧
      IsCanonical (IntervalSet.ofAdditions additions).intervals ∧
      (∀ value,
        (ofAdditions additions).contains value = true ↔
          ∃ addition ∈ additions, addition.Adds value) ∧
      (ofAdditions additions).members.Pairwise (· < ·) ∧
      (∀ value,
        value ∈ (ofAdditions additions).members ↔
          (ofAdditions additions).contains value = true) ∧
      ∀ others,
        ofAdditions additions = ofAdditions others ↔
          ∀ value,
            (ofAdditions additions).contains value = true ↔
              (ofAdditions others).contains value = true := by
  obtain ⟨same, canonical, holds⟩ := exact_ofAdditions additions
  obtain ⟨ascending, listed⟩ := members_spec canonical
  refine ⟨same ▸ mirrors_exact canonical, same ▸ canonical, holds, ascending, listed, ?_⟩
  intro others
  obtain ⟨_, canonical', _⟩ := exact_ofAdditions others
  constructor
  · intro sameSet value
    rw [sameSet]
  · exact fun sameMembers =>
      eq_of_contains canonical canonical' fun value => Bool.eq_iff_iff.mpr (sameMembers value)

end BoundedSet

end GrammarService
