import Mathlib
import GrammarService.IntervalSet

namespace GrammarService

/-!
# What adding ranges to a set does

The ranges of a set ascend, are not empty and stay apart. Adding a range keeps them so, and the set
gains the integers of the range and no others.
-/

namespace IntervalSet

/-- Ascending ranges that are not empty and are apart by at least one integer. -/
structure IsCanonical (ranges : List Interval) : Prop where
  ordered : ∀ range ∈ ranges, range.first ≤ range.last
  apart : ranges.Pairwise fun earlier later => earlier.last + 1 < later.first

namespace IsCanonical

variable {head : Interval} {others : List Interval}

theorem nil : IsCanonical [] :=
  ⟨by simp, .nil⟩

theorem tail (canonical : IsCanonical (head :: others)) : IsCanonical others where
  ordered := fun range member => canonical.ordered range (List.mem_cons_of_mem head member)
  apart := (List.pairwise_cons.mp canonical.apart).2

/-- The ranges behind the first one begin beyond its end. -/
theorem last_lt
    (canonical : IsCanonical (head :: others))
    {range : Interval}
    (member : range ∈ others) :
    head.last + 1 < range.first :=
  (List.pairwise_cons.mp canonical.apart).1 range member

theorem cons
    (ordered : head.first ≤ head.last)
    (canonical : IsCanonical others)
    (apart : ∀ range ∈ others, head.last + 1 < range.first) :
    IsCanonical (head :: others) where
  ordered := by
    intro range member
    rcases List.mem_cons.mp member with rfl | isBehind
    · exact ordered
    · exact canonical.ordered range isBehind
  apart := List.pairwise_cons.mpr ⟨apart, canonical.apart⟩

end IsCanonical

/-- Some range holds a value. -/
def Holds
    (ranges : List Interval)
    (value : Int) :
    Prop :=
  ∃ range ∈ ranges, range.first ≤ value ∧ value ≤ range.last

theorem holds_cons_iff
    {head : Interval}
    {tail : List Interval}
    {value : Int} :
    Holds (head :: tail) value ↔
      head.first ≤ value ∧ value ≤ head.last ∨ Holds tail value := by
  simp [Holds]

/-- What is found among ranges lies in one of them. -/
theorem holds_of_containsIn
    {ranges : List Interval}
    {value : Int}
    (found : containsIn value ranges = true) :
    Holds ranges value := by
  induction ranges with
  | nil => cases found
  | cons head tail inductionHypothesis =>
      rw [holds_cons_iff]
      rw [containsIn] at found
      split at found
      · exact .inr (inductionHypothesis found)
      · rw [decide_eq_true_eq] at found
        exact .inl ⟨found, by omega⟩

/-- In ascending ranges it is enough to look at the first one that does not end before a value. -/
theorem containsIn_iff
    {ranges : List Interval}
    (canonical : IsCanonical ranges)
    (value : Int) :
    containsIn value ranges = true ↔ Holds ranges value := by
  induction ranges with
  | nil => simp [containsIn, Holds]
  | cons head tail inductionHypothesis =>
      rw [holds_cons_iff, containsIn]
      by_cases before : head.last < value
      · rw [if_pos before, inductionHypothesis canonical.tail]
        constructor
        · exact .inr
        · rintro (⟨-, within⟩ | isBehind)
          · omega
          · exact isBehind
      · rw [if_neg before, decide_eq_true_eq]
        constructor
        · intro begins
          exact .inl ⟨begins, by omega⟩
        · rintro (⟨begins, -⟩ | ⟨range, member, begins, -⟩)
          · exact begins
          · have beyond := canonical.last_lt member
            omega

/-- Whatever lies before a range and before all others lies before them when it was inserted. -/
theorem lt_of_mem_insertRange
    {bound first last : Int}
    {ranges : List Interval}
    (beforeRange : bound < first)
    (beforeOthers : ∀ range ∈ ranges, bound < range.first)
    {range : Interval}
    (member : range ∈ insertRange first last ranges) :
    bound < range.first := by
  fun_induction insertRange first last ranges with
  | case1 first last =>
      cases List.mem_singleton.mp member
      exact beforeRange
  | case2 first last head tail isBefore inductionHypothesis =>
      rcases List.mem_cons.mp member with rfl | isBehind
      · exact beforeOthers _ List.mem_cons_self
      · apply inductionHypothesis beforeRange ?_ isBehind
        exact fun range member => beforeOthers range (List.mem_cons_of_mem head member)
  | case3 first last head tail _ isBehind =>
      rcases List.mem_cons.mp member with rfl | isOld
      · exact beforeRange
      · exact beforeOthers range isOld
  | case4 first last head tail _ _ inductionHypothesis =>
      have beforeHead := beforeOthers head List.mem_cons_self
      apply inductionHypothesis (lt_min beforeRange beforeHead) ?_ member
      exact fun range member => beforeOthers range (List.mem_cons_of_mem head member)

/-- Ranges stay ascending, apart and not empty when one is inserted. -/
theorem IsCanonical.insertRange
    {first last : Int}
    (ordered : first ≤ last)
    {ranges : List Interval}
    (canonical : IsCanonical ranges) :
    IsCanonical (IntervalSet.insertRange first last ranges) := by
  fun_induction IntervalSet.insertRange first last ranges with
  | case1 first last => exact .cons ordered canonical (by simp)
  | case2 first last head tail isBefore inductionHypothesis =>
      refine .cons (canonical.ordered head List.mem_cons_self)
        (inductionHypothesis ordered canonical.tail) ?_
      intro range member
      exact lt_of_mem_insertRange isBefore (fun _ => canonical.last_lt) member
  | case3 first last head tail _ isBehind =>
      refine .cons ordered canonical ?_
      intro range member
      rcases List.mem_cons.mp member with rfl | isLater
      · exact isBehind
      · have headOrdered := canonical.ordered head List.mem_cons_self
        have beyond := canonical.last_lt isLater
        dsimp only
        omega
  | case4 first last head tail _ _ inductionHypothesis =>
      have headOrdered := canonical.ordered head List.mem_cons_self
      exact inductionHypothesis (by omega) canonical.tail

/-- The inserted range is held besides what was held before. -/
theorem holds_insertRange_iff
    {first last : Int}
    (ordered : first ≤ last)
    {ranges : List Interval}
    (canonical : IsCanonical ranges)
    (value : Int) :
    Holds (insertRange first last ranges) value ↔
      first ≤ value ∧ value ≤ last ∨ Holds ranges value := by
  fun_induction insertRange first last ranges with
  | case1 first last => simp [Holds]
  | case2 first last head tail isBefore inductionHypothesis =>
      rw [holds_cons_iff, holds_cons_iff, inductionHypothesis ordered canonical.tail]
      exact or_left_comm
  | case3 first last head tail _ isBehind => rw [holds_cons_iff]
  | case4 first last head tail notBefore notBehind inductionHypothesis =>
      have headOrdered := canonical.ordered head List.mem_cons_self
      have joined :
          min first head.first ≤ value ∧ value ≤ max last head.last ↔
            first ≤ value ∧ value ≤ last ∨ head.first ≤ value ∧ value ≤ head.last := by
        omega
      rw [holds_cons_iff, inductionHypothesis (by omega) canonical.tail, joined, or_assoc]

/-- Adding a range keeps a set canonical. -/
theorem IsCanonical.addRange
    {symbols : IntervalSet}
    (canonical : IsCanonical symbols.intervals)
    (first last : Int) :
    IsCanonical (symbols.addRange first last).intervals := by
  unfold IntervalSet.addRange
  split
  · exact canonical
  · exact canonical.insertRange (by omega)

/-- A set gains the integers of a range that is added. -/
theorem contains_addRange_iff
    {symbols : IntervalSet}
    (canonical : IsCanonical symbols.intervals)
    (first last value : Int) :
    (symbols.addRange first last).contains value = true ↔
      symbols.contains value = true ∨ first ≤ value ∧ value ≤ last := by
  unfold contains
  rw [containsIn_iff (canonical.addRange first last), containsIn_iff canonical, addRange]
  split
  · constructor
    · exact .inl
    · rintro (isHeld | ⟨begins, ends⟩)
      · exact isHeld
      · omega
  · rw [holds_insertRange_iff (by omega) canonical, or_comm]

/-- A set gains an integer that is added. -/
theorem contains_add_iff
    {symbols : IntervalSet}
    (canonical : IsCanonical symbols.intervals)
    (added value : Int) :
    (symbols.add added).contains value = true ↔
      symbols.contains value = true ∨ value = added := by
  rw [add, contains_addRange_iff canonical]
  exact or_congr_right ⟨fun within => by omega, fun same => by omega⟩

@[simp]
theorem contains_empty (value : Int) : empty.contains value = false :=
  rfl

/-- The integers of some ranges, the first and the last of each included. -/
def ofRanges (ranges : List (Int × Int)) : IntervalSet :=
  ranges.foldl (fun symbols (first, last) => symbols.addRange first last) empty

/-- A set that is made of ranges has the integers that lie in one of them. -/
theorem contains_ofRanges_iff
    (ranges : List (Int × Int))
    (value : Int) :
    (ofRanges ranges).contains value = true ↔
      ∃ range ∈ ranges, range.1 ≤ value ∧ value ≤ range.2 := by
  have added :
      ∀ (symbols : IntervalSet),
        IsCanonical symbols.intervals →
          (IntervalSet.contains
              (ranges.foldl (fun symbols (first, last) => symbols.addRange first last) symbols)
              value = true ↔
            symbols.contains value = true ∨
              ∃ range ∈ ranges, range.1 ≤ value ∧ value ≤ range.2) := by
    induction ranges with
    | nil => simp
    | cons head tail inductionHypothesis =>
        intro symbols canonical
        rw [List.foldl_cons, inductionHypothesis _ (canonical.addRange head.1 head.2),
          contains_addRange_iff canonical, List.exists_mem_cons_iff, or_assoc]
  rw [ofRanges, added empty .nil]
  simp

/-- A set stays canonical when the ranges of another one are added. -/
theorem IsCanonical.union
    {symbols : IntervalSet}
    (canonical : IsCanonical symbols.intervals)
    (additions : IntervalSet) :
    IsCanonical (symbols.union additions).intervals := by
  obtain ⟨ranges⟩ := additions
  unfold IntervalSet.union
  induction ranges generalizing symbols with
  | nil => exact canonical
  | cons head tail inductionHypothesis =>
      exact inductionHypothesis (canonical.addRange head.first head.last)

/-- A union has the integers of the set and those that lie in an added range. -/
theorem contains_union_iff
    {symbols : IntervalSet}
    (canonical : IsCanonical symbols.intervals)
    (additions : IntervalSet)
    (value : Int) :
    (symbols.union additions).contains value = true ↔
      symbols.contains value = true ∨ Holds additions.intervals value := by
  obtain ⟨ranges⟩ := additions
  unfold union
  induction ranges generalizing symbols with
  | nil => simp [Holds]
  | cons head tail inductionHypothesis =>
      rw [List.foldl_cons, inductionHypothesis (canonical.addRange head.first head.last),
        contains_addRange_iff canonical, holds_cons_iff, or_assoc]

/-- A union of canonical sets has the integers of both. -/
theorem IsCanonical.contains_union_iff
    {symbols additions : IntervalSet}
    (canonical : IsCanonical symbols.intervals)
    (canonical' : IsCanonical additions.intervals)
    (value : Int) :
    (symbols.union additions).contains value = true ↔
      symbols.contains value = true ∨ additions.contains value = true := by
  rw [IntervalSet.contains_union_iff canonical, ← containsIn_iff canonical']
  rfl

/-- The gaps between ascending ranges have what lies between the bounds and in none of them. -/
theorem holds_gapsBetween_iff
    {low high : Int}
    {ranges : List Interval}
    (canonical : IsCanonical ranges)
    (value : Int) :
    Holds (gapsBetween low high ranges) value ↔
      (low ≤ value ∧ value ≤ high) ∧ ¬ Holds ranges value := by
  induction ranges generalizing low with
  | nil =>
      unfold gapsBetween
      split
      · simp [Holds]
      · simp only [Holds, List.not_mem_nil, false_and, exists_false, not_false_eq_true, and_true,
          false_iff]
        omega
  | cons head tail inductionHypothesis =>
      have ordered := canonical.ordered head List.mem_cons_self
      have beyond : Holds tail value → head.last < value := by
        rintro ⟨range, member, begins, _⟩
        have apart := canonical.last_lt member
        omega
      have free := @inductionHypothesis (max low (head.last + 1)) canonical.tail
      unfold gapsBetween
      dsimp only
      -- Whether a later range has the value is settled first, the rest is where the value lies.
      by_cases isBehind : Holds tail value
      · have isBeyond := beyond isBehind
        split
        · simp only [holds_cons_iff, free, isBehind, not_true_eq_false, and_false, or_true, or_false,
            iff_false]
          omega
        · simp only [holds_cons_iff, free, isBehind, not_true_eq_false, and_false, or_true]
      · split <;>
          simp only [holds_cons_iff, free, isBehind, not_false_eq_true, and_true, or_false] <;>
          omega

end IntervalSet

end GrammarService
