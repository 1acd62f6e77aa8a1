import GrammarService.Proofs.Prediction.Ways

namespace GrammarService

/-!
# Stacks and what they denote

A store in which every stack was pushed or merged, always with the empty stack read in one way, is
canonical: the entries of a node ascend, no node stands for the empty stack once more, and every
node is interned. In a canonical store the number of a stack and what it stands for determine each
other, and merging two stacks gives the stack for all that either stands for.
-/

namespace StackStore

variable
  {store after : StackStore}
  {emptyIsAny : Bool}
  {stack first second : StackId}
  {returns : List Nat}
  {way : List (Option Nat)}

/-- Entries have no bottom among them if the empty stack is any stack. -/
def BottomAllowed
    (emptyIsAny : Bool)
    (entries : List StackEntry) :
    Prop :=
  emptyIsAny = true → ∀ entry ∈ entries, entry.returnState ≠ none

/-- A store has one node for each set of stacks. -/
structure Canonical
    (emptyIsAny : Bool)
    (store : StackStore) :
    Prop extends WellMade store where
  ascends : ∀ stack : StackId, Ascends (store.entries stack)
  notBottom : ∀ stack : StackId, store.entries stack ≠ [StackEntry.bottom]
  bottomAllowed : ∀ stack : StackId, BottomAllowed emptyIsAny (store.entries stack)
  known :
    ∀ {stack : StackId},
      stack ≠ StackId.empty → store.IsIn stack →
        store.interned[store.entries stack]? = some stack
  exact :
    ∀ {first second stack : StackId} {returns : List Nat},
      store.merged[(first, second, emptyIsAny)]? = some stack →
        store.Holds emptyIsAny stack returns →
          store.Holds emptyIsAny first returns ∨ store.Holds emptyIsAny second returns

/-- The states that a way returns to before it ends or comes to a bottom. -/
def returnsAlong : List (Option Nat) → List Nat
  | some follow :: way => follow :: returnsAlong way
  | _ => []

/-- The states that are returned to, with the bottom behind them. -/
def wayAlong (returns : List Nat) : List (Option Nat) :=
  returns.map some ++ [none]

theorem returnsAlong_wayAlong (returns : List Nat) : returnsAlong (wayAlong returns) = returns := by
  induction returns with
  | nil => rfl
  | cons follow returns inductionHypothesis => exact congrArg (follow :: ·) inductionHypothesis

/-- A stack that need not return begins with its bottom. -/
theorem WellMade.holds_nil_iff
    (wellMade : store.WellMade) :
    store.Holds emptyIsAny stack [] ↔
      ∃ entry ∈ store.spelledEntries stack, entry.returnState = none := by
  rw [wellMade.holds_iff]
  simp [EntriesHold, EntryHolds]

/-- A stack returns to the state of an entry, or is any stack where it comes to its bottom. -/
theorem WellMade.holds_cons_iff
    (wellMade : store.WellMade)
    {follow : Nat} :
    store.Holds emptyIsAny stack (follow :: returns) ↔
      (∃ entry ∈ store.spelledEntries stack, entry.returnState = none ∧ emptyIsAny = true) ∨
        ∃ entry ∈ store.spelledEntries stack,
          entry.returnState = some follow ∧ store.Holds emptyIsAny entry.below returns := by
  rw [wellMade.holds_iff, ← exists_or]
  refine exists_congr fun entry => ?_
  rw [← and_or_left]
  refine and_congr_right fun _ => or_congr (by simp) ?_
  constructor
  · rintro ⟨_, _, isFollow, isReturns, rest⟩
    obtain ⟨rfl, rfl⟩ := List.cons.inj isReturns
    exact ⟨isFollow, rest⟩
  · rintro ⟨isFollow, rest⟩
    exact ⟨follow, returns, isFollow, rfl, rest⟩

/-- Without bottoms in nodes, only the empty stack begins with its bottom. -/
theorem exists_bottom_iff
    (noBottom : ∀ entry ∈ store.entries stack, entry.returnState ≠ none) :
    (∃ entry ∈ store.spelledEntries stack, entry.returnState = none) ↔
      stack = StackId.empty := by
  by_cases isEmpty : stack = StackId.empty
  · simp [spelledEntries, isEmpty, StackEntry.bottom]
  · simpa [spelledEntries, isEmpty] using noBottom

/-- A way is one through a stack if the stack returns along it, and as far down as it has to. -/
theorem WellMade.spells_iff_holds
    (wellMade : store.WellMade)
    (bottomAllowed : ∀ stack : StackId, BottomAllowed emptyIsAny (store.entries stack)) :
    store.Spells emptyIsAny stack way ↔
      (emptyIsAny = true ∨ none ∈ way) ∧ store.Holds emptyIsAny stack (returnsAlong way) := by
  induction way generalizing stack with
  | nil =>
      simp only [Spells, returnsAlong, List.not_mem_nil, or_false, wellMade.holds_nil_iff]
      exact and_congr_right fun isAny => (exists_bottom_iff (bottomAllowed stack isAny)).symm
  | cons letter way inductionHypothesis =>
      cases letter with
      | none =>
          simp only [Spells, returnsAlong, List.mem_cons, true_or, or_true, true_and, and_true,
            wellMade.holds_nil_iff]
          refine or_iff_right_of_imp fun isAny => ⟨StackEntry.bottom, ?_, rfl⟩
          simp [spelledEntries, isAny.2]
      | some follow =>
          have isEmpty_iff := fun isAny => exists_bottom_iff (bottomAllowed stack isAny)
          simp only [Spells, returnsAlong, List.mem_cons, reduceCtorEq, false_or,
            wellMade.holds_cons_iff, inductionHypothesis]
          constructor
          · rintro (⟨isAny, isEmpty⟩ | ⟨entry, member, isFollow, goesOn, rest⟩)
            · obtain ⟨entry, member, isNone⟩ := (isEmpty_iff isAny).mpr isEmpty
              exact ⟨.inl isAny, .inl ⟨entry, member, isNone, isAny⟩⟩
            · exact ⟨goesOn, .inr ⟨entry, member, isFollow, rest⟩⟩
          · rintro ⟨goesOn, ⟨entry, member, isNone, isAny⟩ | ⟨entry, member, isFollow, rest⟩⟩
            · exact .inl ⟨isAny, (isEmpty_iff isAny).mp ⟨entry, member, isNone⟩⟩
            · exact .inr ⟨entry, member, isFollow, goesOn, rest⟩

namespace Canonical

variable (canonical : store.Canonical emptyIsAny)

include canonical

/-- A stack stands for what its ways return to. -/
theorem holds_iff_spells :
    store.Holds emptyIsAny stack returns ↔ store.Spells emptyIsAny stack (wayAlong returns) := by
  rw [canonical.spells_iff_holds canonical.bottomAllowed, returnsAlong_wayAlong]
  simp [wayAlong]

/-- A canonical store is sound for the one way to read the empty stack. -/
theorem sound : store.Sound {emptyIsAny} where
  toWellMade := canonical.toWellMade
  ascends := canonical.ascends
  notBottom := canonical.notBottom
  known := canonical.known
  noBottom isAny stack := canonical.bottomAllowed stack (by simpa using isAny)
  sound := by
    intro first second stack reading isReading isMerged way
    obtain rfl := Set.mem_singleton_iff.mp isReading
    obtain ⟨-, -, -, joins⟩ := canonical.merged isMerged
    simp only [canonical.spells_iff_holds canonical.bottomAllowed, ← and_or_left]
    exact and_congr_right fun _ => ⟨canonical.exact isMerged, joins.upper⟩

end Canonical

/-- A store that is sound for one way to read the empty stack is canonical. -/
theorem Sound.canonical
    (sound : store.Sound {emptyIsAny}) :
    store.Canonical emptyIsAny := by
  have bottomAllowed : ∀ stack : StackId, BottomAllowed emptyIsAny (store.entries stack) :=
    fun stack isAny => sound.noBottom (by simp [isAny]) stack
  refine ⟨sound.toWellMade, sound.ascends, sound.notBottom, bottomAllowed, sound.known, ?_⟩
  intro first second stack returns isMerged holds
  have isSpelled := sound.sound (Set.mem_singleton emptyIsAny) isMerged (wayAlong returns)
  simp only [sound.spells_iff_holds bottomAllowed, ← and_or_left, returnsAlong_wayAlong]
    at isSpelled
  simpa [wayAlong, holds] using isSpelled

/-- The first store is canonical. -/
theorem Canonical.initial (emptyIsAny : Bool) : initial.Canonical emptyIsAny :=
  (Sound.initial _).canonical

/-- Two stacks are merged into one for all that either stands for. -/
structure Unites
    (store : StackStore)
    (emptyIsAny : Bool)
    (first second : StackId)
    (made : StackId × StackStore) :
    Prop where
  canonical : made.2.Canonical emptyIsAny
  grows : store.Grows made.2
  isIn : made.2.IsIn made.1
  united :
    ∀ {returns : List Nat},
      made.2.Holds emptyIsAny made.1 returns ↔
        store.Holds emptyIsAny first returns ∨ store.Holds emptyIsAny second returns

/-- What has the ways of two stacks stands for all that either stands for. -/
theorem UnitesWays.unites
    {made : StackId × StackStore}
    (unites : store.UnitesWays {emptyIsAny} emptyIsAny first second made)
    (canonical : store.Canonical emptyIsAny) :
    store.Unites emptyIsAny first second made where
  canonical := unites.sound.canonical
  grows := unites.grows
  isIn := unites.isIn
  united := by
    intro returns
    rw [unites.sound.canonical.holds_iff_spells, unites.united, canonical.holds_iff_spells,
      canonical.holds_iff_spells]

end StackStore

end GrammarService
