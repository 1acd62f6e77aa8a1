import GrammarService.Proofs.Prediction.Repeating

namespace GrammarService

/-!
# Tidy stores

However stacks are pushed and merged, the entries of a node ascend, no node stands for the empty
stack once more, and every node is interned. In such a tidy store all stacks are merged in one way,
entry by entry, unless the empty stack takes in the other one.
-/

namespace StackEntry

variable {first second third : StackEntry}

theorem isBefore_trans
    (before : first.isBefore second = true)
    (after : second.isBefore third = true) :
    first.isBefore third = true := by
  cases isFirst : first.returnState with
  | none => simp [isBefore, isFirst] at before
  | some follow =>
      cases isSecond : second.returnState with
      | none => simp [isBefore, isSecond] at after
      | some next =>
          cases isThird : third.returnState with
          | none => simp [isBefore, isFirst, isThird]
          | some last =>
              simp only [isBefore, isFirst, isSecond, isThird, decide_eq_true_eq] at *
              exact before.trans after

theorem returnState_ne_of_isBefore
    (before : first.isBefore second = true) :
    first.returnState ≠ second.returnState := by
  intro same
  simp only [isBefore, same] at before
  split at before <;> simp_all

/-- Of two entries with different return states one comes before the other. -/
theorem isBefore_of_not_isBefore
    (different : first.returnState ≠ second.returnState)
    (notBefore : ¬ first.isBefore second = true) :
    second.isBefore first = true := by
  unfold isBefore at *
  cases isFirst : first.returnState <;> cases isSecond : second.returnState <;>
    simp_all
  omega

/-- Where an entry stands depends on return states only. -/
theorem isBefore_congr
    {other : StackEntry}
    (same : second.returnState = other.returnState) :
    first.isBefore second = first.isBefore other := by
  simp only [isBefore, same]

/-- Nothing comes after the bottom. -/
theorem isBefore_of_bottom
    (notBottom : first.returnState ≠ none)
    (isBottom : second.returnState = none) :
    first.isBefore second = true := by
  unfold isBefore
  cases isFirst : first.returnState with
  | none => exact absurd isFirst notBottom
  | some => simp [isBottom]

end StackEntry

namespace StackStore

variable
  {store : StackStore}
  {emptyIsAny : Bool}
  {stack first second : StackId}

/-- Entries stand in strictly ascending order of their return states, a bottom last. -/
def Ascends (entries : List StackEntry) : Prop :=
  entries.Pairwise fun entry later => entry.isBefore later = true

/-- An entry that comes before all others ascends with them. -/
theorem Ascends.cons
    {entry : StackEntry}
    {entries firsts seconds : List StackEntry}
    (ascends : Ascends entries)
    (returnStates :
      ∀ {returnState : Option Nat},
        (∃ other ∈ entries, other.returnState = returnState) →
          (∃ other ∈ firsts, other.returnState = returnState) ∨
            ∃ other ∈ seconds, other.returnState = returnState)
    (before : ∀ other ∈ firsts, entry.isBefore other = true)
    (before' : ∀ other ∈ seconds, entry.isBefore other = true) :
    Ascends (entry :: entries) := by
  refine List.pairwise_cons.mpr ⟨fun other member => ?_, ascends⟩
  rcases returnStates ⟨other, member, rfl⟩ with ⟨twin, isTwin, same⟩ | ⟨twin, isTwin, same⟩
  · rw [← StackEntry.isBefore_congr same]
    exact before twin isTwin
  · rw [← StackEntry.isBefore_congr same]
    exact before' twin isTwin

/-- What comes before the first of some ascending entries comes before all of them. -/
theorem forall_isBefore
    {entry head : StackEntry}
    {rest : List StackEntry}
    (before : entry.isBefore head = true)
    (ascends : Ascends (head :: rest)) :
    ∀ other ∈ head :: rest, entry.isBefore other = true := by
  refine List.forall_mem_cons.mpr ⟨before, fun other member => ?_⟩
  exact StackEntry.isBefore_trans before ((List.pairwise_cons.mp ascends).1 other member)

/-- A store has one node for each list of entries, and none for the empty stack. -/
structure Tidy (store : StackStore) : Prop extends WellMade store where
  ascends : ∀ stack : StackId, Ascends (store.entries stack)
  notBottom : ∀ stack : StackId, store.entries stack ≠ [StackEntry.bottom]
  known :
    ∀ {stack : StackId},
      stack ≠ StackId.empty → store.IsIn stack →
        store.interned[store.entries stack]? = some stack

/-- Making a stack leaves the entries of all nodes alone, but for the node that it may add. -/
theorem entries_intern
    (store : StackStore)
    (entries : List StackEntry)
    (stack : StackId) :
    ((intern entries).run store).2.entries stack = store.entries stack ∨
      entries ≠ [StackEntry.bottom] ∧
        ((intern entries).run store).2.entries stack = entries := by
  rw [run_intern]
  split
  · exact .inl rfl
  rename_i isNode
  cases isKnown : store.interned[entries]? with
  | some stack => exact .inl rfl
  | none =>
      simp only [StackStore.entries, Array.getD_eq_getD_getElem?, Array.getElem?_push]
      split
      · exact .inr ⟨by simp_all, rfl⟩
      · exact .inl rfl

/-- Making a stack leaves alone what merges are remembered. -/
theorem merged_intern
    (store : StackStore)
    (entries : List StackEntry) :
    ((intern entries).run store).2.merged = store.merged := by
  rw [run_intern]
  split
  · rfl
  · cases store.interned[entries]? <;> rfl

namespace Tidy

/-- The first store is tidy. -/
theorem initial : initial.Tidy where
  toWellMade := .initial
  ascends stack := by cases stack <;> simp [StackStore.initial, StackStore.entries, Ascends]
  notBottom stack := by cases stack <;> simp [StackStore.initial, StackStore.entries]
  known := by
    intro stack isStack isIn
    simp only [IsIn, StackStore.initial, List.size_toArray, List.length_singleton] at isIn
    exact absurd (Nat.lt_one_iff.mp isIn) isStack

variable (tidy : store.Tidy)

include tidy

/-- Every stack but the empty one has a state to return to. -/
theorem exists_follow
    (isStack : stack ≠ StackId.empty)
    (isIn : store.IsIn stack) :
    ∃ follow below, ⟨some follow, below⟩ ∈ store.entries stack := by
  have nonempty := tidy.nonempty isStack isIn
  have notBottom := tidy.notBottom stack
  have ascends := tidy.ascends stack
  have bottom := @tidy.bottom stack
  cases isEntries : store.entries stack with
  | nil => exact absurd isEntries nonempty
  | cons entry rest =>
      rw [isEntries] at notBottom ascends bottom
      obtain ⟨returnState, below⟩ := entry
      cases returnState with
      | some follow => exact ⟨follow, below, by simp⟩
      | none =>
          cases rest with
          | nil =>
              have atEmpty := @bottom ⟨none, below⟩ (by simp) rfl
              simp only at atEmpty
              exact absurd (by rw [atEmpty]; rfl) notBottom
          | cons next rest =>
              have before := (List.pairwise_cons.mp ascends).1 next (by simp)
              simp [StackEntry.isBefore] at before

theorem ascends_spelledEntries (stack : StackId) : Ascends (store.spelledEntries stack) := by
  by_cases isEmpty : stack = StackId.empty
  · simp [spelledEntries, isEmpty, Ascends]
  · simpa [spelledEntries, isEmpty] using tidy.ascends stack

/-- A state to return to has one stack below it. -/
theorem below_unique
    {returnState : Option Nat}
    {below below' : StackId}
    (present : ⟨returnState, below⟩ ∈ store.entries stack)
    (present' : ⟨returnState, below'⟩ ∈ store.entries stack) :
    below = below' := by
  by_contra different
  have symm :
      Std.Symm fun entry later : StackEntry => entry.returnState ≠ later.returnState :=
    ⟨fun _ _ => Ne.symm⟩
  have apart := (tidy.ascends stack).imp StackEntry.returnState_ne_of_isBefore
  exact apart.forall present present' (by simpa using different) rfl

/-- Stacks with the same entries are the same. -/
theorem eq_of_same_entries
    (firstIsStack : first ≠ StackId.empty)
    (secondIsStack : second ≠ StackId.empty)
    (firstIsIn : store.IsIn first)
    (secondIsIn : store.IsIn second)
    (same : ∀ entry, entry ∈ store.entries first ↔ entry ∈ store.entries second) :
    first = second := by
  have irrefl :
      Std.Irrefl fun entry later : StackEntry => entry.isBefore later = true :=
    ⟨fun _ before => StackEntry.returnState_ne_of_isBefore before rfl⟩
  have antisymm :
      Std.Antisymm fun entry later : StackEntry => entry.isBefore later = true :=
    ⟨fun _ _ before after =>
      absurd (StackEntry.isBefore_trans before after) (irrefl.irrefl _)⟩
  have sameEntries : store.entries first = store.entries second :=
    (tidy.ascends first).eq_of_mem_iff (tidy.ascends second) same
  have isKnown := tidy.known firstIsStack firstIsIn
  rw [sameEntries, tidy.known secondIsStack secondIsIn] at isKnown
  exact (Option.some.inj isKnown).symm

/-- Making a stack of fitting ascending entries keeps a store tidy. -/
theorem intern
    {entries : List StackEntry}
    (fit : store.Fit entries)
    (nonempty : entries ≠ [])
    (ascends : Ascends entries) :
    ((intern entries).run store).2.Tidy where
  toWellMade := (interns_intern tidy.toWellMade fit nonempty).wellMade
  ascends stack := by
    rcases entries_intern store entries stack with same | ⟨-, same⟩ <;> rw [same]
    · exact tidy.ascends stack
    · exact ascends
  notBottom stack := by
    rcases entries_intern store entries stack with same | ⟨notBottom, same⟩ <;> rw [same]
    · exact tidy.notBottom stack
    · exact notBottom
  known := by
    intro stack isStack isIn
    have extension := Keeps.intern entries store
    rcases Nat.lt_or_ge stack store.nodes.size with wasIn | isNew
    · rw [extension.toGrows.entries wasIn]
      exact extension.interned (tidy.known isStack wasIn)
    revert isIn
    rw [run_intern]
    split
    · exact fun isIn => absurd isIn isNew.not_gt
    cases isKnown : store.interned[entries]? with
    | some => exact fun isIn => absurd isIn isNew.not_gt
    | none =>
        intro isIn
        have isIn : stack < (store.nodes.push entries).size := isIn
        have isLast : stack = store.nodes.size :=
          le_antisymm (Nat.lt_succ_iff.mp (by rwa [Array.size_push] at isIn)) isNew
        simp [isLast, StackStore.entries, Array.getD_eq_getD_getElem?]

/-- The entry of a stack with a single way to start returning, which is not to its bottom. -/
theorem entries_of_isSingle
    (single : store.isSingle stack = true)
    (isStack : stack ≠ StackId.empty) :
    ∃ entry, store.entries stack = [entry] ∧ entry.returnState ≠ none := by
  obtain ⟨⟨returnState, below⟩, isEntries⟩ := StackStore.entries_of_isSingle single isStack
  refine ⟨_, isEntries, fun isNone => tidy.notBottom stack ?_⟩
  have atEmpty : below = StackId.empty :=
    @tidy.bottom stack ⟨returnState, below⟩ (by simp [isEntries]) isNone
  simp only at isNone
  rw [isEntries, isNone, atEmpty]
  rfl

end Tidy

section MergeBelow

variable
  (mergeBelow : StackId → StackId → StateM StackStore StackId)
  (self :
    ∀ (below : StackId) (store : StackStore), (mergeBelow below below).run store = (below, store))
  (tidy : store.Tidy)
  (different : first ≠ second)

include self tidy different

/-- Stacks with single ways are merged as all others are. -/
theorem run_mergeSingles
    (firstSingle : store.isSingle first = true)
    (secondSingle : store.isSingle second = true)
    (notAbsorbed :
      ¬ (emptyIsAny = true ∧ (first = StackId.empty ∨ second = StackId.empty))) :
    (mergeSingles mergeBelow emptyIsAny first second).run store =
      (let made :=
        (mergeEntries mergeBelow (store.spelledEntries first)
          (store.spelledEntries second)).run store
      (intern made.1).run made.2) := by
  by_cases firstEmpty : first = StackId.empty
  · have isExact : emptyIsAny = false := by simpa [firstEmpty] using notAbsorbed
    have secondIsStack : second ≠ StackId.empty := fun isEmpty =>
      different (firstEmpty.trans isEmpty.symm)
    obtain ⟨entry, isEntries, notBottom⟩ :=
      tidy.entries_of_isSingle secondSingle secondIsStack
    have isLast : ¬ StackEntry.bottom.isBefore entry = true := by
      simp [StackEntry.isBefore, StackEntry.bottom]
    rw [spelledEntries, if_pos firstEmpty, spelledEntries, if_neg secondIsStack, isEntries,
      run_mergeEntries_after _ _ _ _ notBottom.symm isLast, run_mergeEntries_nil_right]
    simp [mergeSingles, firstEmpty, isExact, spelledEntries, secondIsStack, isEntries]
  · obtain ⟨entry, isEntries, notBottom⟩ := tidy.entries_of_isSingle firstSingle firstEmpty
    by_cases secondEmpty : second = StackId.empty
    · have isExact : emptyIsAny = false := by simpa [secondEmpty] using notAbsorbed
      have isFirst : entry.isBefore StackEntry.bottom = true :=
        StackEntry.isBefore_of_bottom notBottom rfl
      rw [spelledEntries, if_neg firstEmpty, spelledEntries, if_pos secondEmpty, isEntries,
        run_mergeEntries_before _ _ _ _ notBottom isFirst, run_mergeEntries_nil]
      simp [mergeSingles, firstEmpty, secondEmpty, isExact, spelledEntries, isEntries]
    · obtain ⟨entry', isEntries', notBottom'⟩ :=
        tidy.entries_of_isSingle secondSingle secondEmpty
      rw [spelledEntries, if_neg firstEmpty, spelledEntries, if_neg secondEmpty, isEntries,
        isEntries']
      by_cases same : entry.returnState = entry'.returnState
      · have joined :
            (if entry.below = entry'.below then (entry.below, store)
              else (mergeBelow entry.below entry'.below).run store) =
              (mergeBelow entry.below entry'.below).run store := by
          split
          · rename_i sameBelow
            rw [← sameBelow, self]
          · rfl
        rw [run_mergeEntries_same _ _ _ _ same, joined]
        simp only [run_mergeEntries_nil]
        simp [mergeSingles, firstEmpty, secondEmpty, isEntries, isEntries', same]
        rfl
      · by_cases before : entry.isBefore entry' = true
        · rw [run_mergeEntries_before _ _ _ _ same before, run_mergeEntries_nil]
          simp [mergeSingles, firstEmpty, secondEmpty, isEntries, isEntries', same, before]
        · rw [run_mergeEntries_after _ _ _ _ same before, run_mergeEntries_nil_right]
          simp [mergeSingles, firstEmpty, secondEmpty, isEntries, isEntries', same, before]

/-- Stacks that were not merged before are merged entry by entry unless one takes in the other. -/
theorem run_mergeAnew :
    (mergeAnew mergeBelow emptyIsAny first second).run store =
      if emptyIsAny = true ∧ (first = StackId.empty ∨ second = StackId.empty) then
        (StackId.empty, store)
      else
        (let made :=
          (mergeEntries mergeBelow (store.spelledEntries first)
            (store.spelledEntries second)).run store
        (intern made.1).run made.2) := by
  by_cases single : store.isSingle first = true ∧ store.isSingle second = true
  · have isRun :
        (mergeAnew mergeBelow emptyIsAny first second).run store =
          (mergeSingles mergeBelow emptyIsAny first second).run store := by
      simp [mergeAnew, single]
    rw [isRun]
    split
    · rename_i absorbed
      obtain ⟨rfl, anyEmpty⟩ := absorbed
      simp [mergeSingles, anyEmpty]
      rfl
    · rename_i notAbsorbed
      exact run_mergeSingles mergeBelow self tidy different single.1 single.2 notAbsorbed
  · split
    · rename_i absorbed
      simp [mergeAnew, single, absorbed]
      rfl
    · rename_i notAbsorbed
      simp [mergeAnew, single, notAbsorbed]
      rfl

end MergeBelow

/-- A stack is not changed by merging it with itself. -/
theorem run_mergeWithin_self
    (depth : Nat)
    (stack : StackId)
    (store : StackStore) :
    (mergeWithin emptyIsAny depth stack stack).run store = (stack, store) := by
  cases depth <;> simp [mergeWithin] <;> rfl

end StackStore

end GrammarService
