import Mathlib
import GrammarService.Prediction.Stack

namespace GrammarService

/-!
# What return stacks stand for

A stack stands for the lists of return states along its ways down, innermost first. Where the empty
stack is any stack at all, whatever comes below its bottom is among them.

Stores only grow, and what a stack stands for does not change. Merging gives a stack that stands
for all that the merged ones stand for, and for nothing else unless the empty stack is any stack.
-/

namespace StackStore

/-- A stack stands for a list of return states. -/
inductive Holds
    (store : StackStore)
    (emptyIsAny : Bool) :
    StackId → List Nat → Prop where
  | empty
      {returns : List Nat}
      (ends : emptyIsAny = true ∨ returns = []) :
      Holds store emptyIsAny StackId.empty returns
  | bottom
      {stack below : StackId}
      {returns : List Nat}
      (present : ⟨none, below⟩ ∈ store.entries stack)
      (ends : emptyIsAny = true ∨ returns = []) :
      Holds store emptyIsAny stack returns
  | entry
      {stack below : StackId}
      {follow : Nat}
      {returns : List Nat}
      (present : ⟨some follow, below⟩ ∈ store.entries stack)
      (rest : Holds store emptyIsAny below returns) :
      Holds store emptyIsAny stack (follow :: returns)

/-- No way down a stack comes to a bottom other than the empty stack. -/
inductive Bottomless (store : StackStore) : StackId → Prop where
  | empty : Bottomless store StackId.empty
  | entries
      {stack : StackId}
      (returns : ∀ entry ∈ store.entries stack, entry.returnState ≠ none)
      (below : ∀ entry ∈ store.entries stack, Bottomless store entry.below) :
      Bottomless store stack

/-- The stack stands for all that two others stand for, and for nothing else if it need not. -/
structure Joins
    (store : StackStore)
    (emptyIsAny : Bool)
    (first second stack : StackId) :
    Prop where
  upper :
    ∀ {returns : List Nat},
      store.Holds emptyIsAny first returns ∨ store.Holds emptyIsAny second returns →
        store.Holds emptyIsAny stack returns
  lower :
    emptyIsAny = false →
      ∀ {returns : List Nat},
        store.Holds false stack returns →
          store.Holds false first returns ∨ store.Holds false second returns
  bottomless :
    emptyIsAny = true →
      store.Bottomless first → store.Bottomless second → store.Bottomless stack

/-- Nodes come after what is below them, and the tables tell the truth. -/
structure WellMade (store : StackStore) : Prop where
  empty : store.nodes[StackId.empty]? = some []
  below :
    ∀ {stack : StackId} {entry : StackEntry},
      entry ∈ store.entries stack → entry.below < stack
  bottom :
    ∀ {stack : StackId} {entry : StackEntry},
      entry ∈ store.entries stack → entry.returnState = none → entry.below = StackId.empty
  nonempty :
    ∀ {stack : StackId},
      stack ≠ StackId.empty → stack < store.nodes.size → store.entries stack ≠ []
  interned :
    ∀ {entries : List StackEntry} {stack : StackId},
      store.interned[entries]? = some stack → store.nodes[stack]? = some entries
  merged :
    ∀ {first second stack : StackId} {emptyIsAny : Bool},
      store.merged[(first, second, emptyIsAny)]? = some stack →
        first < store.nodes.size ∧ second < store.nodes.size ∧ stack < store.nodes.size ∧
          store.Joins emptyIsAny first second stack

/-- All stacks of a store are in another one too. -/
structure Grows (store after : StackStore) : Prop where
  kept :
    ∀ {stack : StackId} {entries : List StackEntry},
      store.nodes[stack]? = some entries → after.nodes[stack]? = some entries

variable {store after : StackStore} {emptyIsAny : Bool} {stack first second : StackId}

theorem entries_of_getElem?
    {entries : List StackEntry}
    (present : store.nodes[stack]? = some entries) :
    store.entries stack = entries := by
  simp [StackStore.entries, Array.getD_eq_getD_getElem?, present]

theorem getElem?_of_lt
    (valid : stack < store.nodes.size) :
    store.nodes[stack]? = some (store.entries stack) := by
  simp [StackStore.entries, Array.getD_eq_getD_getElem?, valid]

namespace Grows

theorem refl (store : StackStore) : store.Grows store :=
  ⟨id⟩

theorem trans
    {last : StackStore}
    (earlier : store.Grows after)
    (later : after.Grows last) :
    store.Grows last :=
  ⟨fun present => later.kept (earlier.kept present)⟩

variable (grows : store.Grows after)

include grows

theorem valid
    (valid : stack < store.nodes.size) :
    stack < after.nodes.size :=
  (Array.getElem?_eq_some_iff.mp (grows.kept (getElem?_of_lt valid))).1

theorem entries
    (valid : stack < store.nodes.size) :
    after.entries stack = store.entries stack :=
  entries_of_getElem? (grows.kept (getElem?_of_lt valid))

/-- A stack goes on standing for what it stood for. -/
theorem holds_iff
    (wellMade : store.WellMade)
    (valid : stack < store.nodes.size)
    {returns : List Nat} :
    after.Holds emptyIsAny stack returns ↔ store.Holds emptyIsAny stack returns := by
  constructor
  · intro holds
    induction holds with
    | empty ends => exact .empty ends
    | bottom present ends =>
        rw [grows.entries valid] at present
        exact .bottom present ends
    | entry present _ inductionHypothesis =>
        rw [grows.entries valid] at present
        exact .entry present (inductionHypothesis (lt_trans (wellMade.below present) valid))
  · intro holds
    induction holds with
    | empty ends => exact .empty ends
    | bottom present ends =>
        rw [← grows.entries valid] at present
        exact .bottom present ends
    | entry present _ inductionHypothesis =>
        have belowValid := lt_trans (wellMade.below present) valid
        rw [← grows.entries valid] at present
        exact .entry present (inductionHypothesis belowValid)

/-- A stack stays without a bottom. -/
theorem bottomless_iff
    (wellMade : store.WellMade)
    (valid : stack < store.nodes.size) :
    after.Bottomless stack ↔ store.Bottomless stack := by
  constructor
  · intro bottomless
    induction bottomless with
    | empty => exact .empty
    | entries returns _ inductionHypothesis =>
        rw [grows.entries valid] at returns inductionHypothesis
        exact .entries returns fun entry present =>
          inductionHypothesis entry present (lt_trans (wellMade.below present) valid)
  · intro bottomless
    induction bottomless with
    | empty => exact .empty
    | entries returns _ inductionHypothesis =>
        have belowValid :
            ∀ entry ∈ store.entries _, entry.below < store.nodes.size :=
          fun entry present => lt_trans (wellMade.below present) valid
        rw [← grows.entries valid] at returns inductionHypothesis belowValid
        exact .entries returns fun entry present =>
          inductionHypothesis entry present (belowValid entry present)

/-- What was joined stays joined. -/
theorem joins
    (wellMade : store.WellMade)
    (firstValid : first < store.nodes.size)
    (secondValid : second < store.nodes.size)
    (valid : stack < store.nodes.size)
    (joins : store.Joins emptyIsAny first second stack) :
    after.Joins emptyIsAny first second stack where
  upper := by
    intro returns
    rw [grows.holds_iff wellMade firstValid, grows.holds_iff wellMade secondValid,
      grows.holds_iff wellMade valid]
    exact joins.upper
  lower := by
    intro isExact returns
    rw [grows.holds_iff wellMade firstValid, grows.holds_iff wellMade secondValid,
      grows.holds_iff wellMade valid]
    exact joins.lower isExact
  bottomless := by
    rw [grows.bottomless_iff wellMade firstValid, grows.bottomless_iff wellMade secondValid,
      grows.bottomless_iff wellMade valid]
    exact joins.bottomless

end Grows

namespace WellMade

/-- The first store is well made. -/
theorem initial : initial.WellMade where
  empty := rfl
  below := by
    intro stack entry present
    cases stack <;> simp [StackStore.initial, StackStore.entries] at present
  bottom := by
    intro stack entry present
    cases stack <;> simp [StackStore.initial, StackStore.entries] at present
  nonempty := by
    intro stack isStack valid
    simp only [StackStore.initial, List.size_toArray, List.length_singleton] at valid
    exact absurd (Nat.lt_one_iff.mp valid) isStack
  interned := by simp [StackStore.initial]
  merged := by simp [StackStore.initial]

variable (wellMade : store.WellMade)

include wellMade

theorem empty_valid : StackId.empty < store.nodes.size :=
  (Array.getElem?_eq_some_iff.mp wellMade.empty).1

theorem entries_empty : store.entries StackId.empty = [] :=
  entries_of_getElem? wellMade.empty

theorem below_valid
    {entry : StackEntry}
    (valid : stack < store.nodes.size)
    (present : entry ∈ store.entries stack) :
    entry.below < store.nodes.size :=
  lt_trans (wellMade.below present) valid

/-- There are not more returns than nodes. -/
theorem length_le
    {returns : List Nat}
    (holds : store.Holds false stack returns) :
    returns.length ≤ stack := by
  induction holds with
  | empty ends => simp [ends.resolve_left Bool.false_ne_true]
  | bottom _ ends => simp [ends.resolve_left Bool.false_ne_true]
  | entry present _ inductionHypothesis =>
      exact lt_of_le_of_lt inductionHypothesis (wellMade.below present)

/-- A stack with a single return goes there first, and then along what is below. -/
theorem exists_holds_of_single
    {below : StackId}
    {follow : Nat}
    {returns : List Nat}
    (isSingle : store.nodes[stack]? = some [⟨some follow, below⟩])
    (holds : store.Holds emptyIsAny stack returns) :
    ∃ rest, returns = follow :: rest ∧ store.Holds emptyIsAny below rest := by
  have entries := entries_of_getElem? isSingle
  cases holds with
  | empty =>
      rw [wellMade.entries_empty] at entries
      cases entries
  | bottom present =>
      rw [entries, List.mem_singleton] at present
      cases present
  | entry present rest =>
      rw [entries, List.mem_singleton] at present
      cases present
      exact ⟨_, rfl, rest⟩

/-- Every stack stands for something. -/
theorem exists_holds
    (stack : StackId)
    (valid : stack < store.nodes.size) :
    ∃ returns, store.Holds false stack returns := by
  induction stack using Nat.strong_induction_on with
  | _ stack inductionHypothesis =>
      by_cases isEmpty : stack = StackId.empty
      · subst isEmpty
        exact ⟨[], .empty (.inr rfl)⟩
      · obtain ⟨⟨returnState, below⟩, present⟩ :=
          List.exists_mem_of_ne_nil _ (wellMade.nonempty isEmpty valid)
        cases returnState with
        | none => exact ⟨[], .bottom present (.inr rfl)⟩
        | some follow =>
            obtain ⟨returns, holds⟩ :=
              inductionHypothesis below (wellMade.below present)
                (wellMade.below_valid valid present)
            exact ⟨follow :: returns, .entry present holds⟩

end WellMade

/-- The entries of a stack without a bottom return, and what is below them has no bottom. -/
theorem Bottomless.of_ne_empty
    (bottomless : store.Bottomless stack)
    (isStack : stack ≠ StackId.empty) :
    ∀ entry ∈ store.entries stack,
      entry.returnState ≠ none ∧ store.Bottomless entry.below := by
  cases bottomless with
  | empty => exact absurd rfl isStack
  | entries returns below => exact fun entry member => ⟨returns entry member, below entry member⟩

/-- Only the empty stack has its bottom where it begins. -/
theorem Bottomless.eq_empty
    (bottomless : store.Bottomless stack)
    {below : StackId}
    (ends : ⟨none, below⟩ ∈ store.entries stack) :
    stack = StackId.empty := by
  cases bottomless with
  | empty => rfl
  | entries returns _ => exact absurd rfl (returns _ ends)

/-- A stack without a bottom that need not return is the empty stack. -/
theorem Bottomless.eq_empty_of_holds_nil
    (bottomless : store.Bottomless stack)
    (holds : store.Holds emptyIsAny stack []) :
    stack = StackId.empty := by
  generalize isNil : ([] : List Nat) = returns at holds
  cases holds with
  | empty => rfl
  | bottom present => exact bottomless.eq_empty present
  | entry => cases isNil

end StackStore

end GrammarService
