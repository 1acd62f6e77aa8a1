import GrammarService.Proofs.Prediction.Stores

namespace GrammarService

/-!
# Making and merging stacks

A stack is made from entries; a store that has a stack with these entries gives that one. Merging
goes down two stacks at once, entry by entry, and remembers what it finds.
-/

namespace StackStore

variable {store after : StackStore} {emptyIsAny : Bool} {stack first second : StackId}

/-- An entry stands for a list of return states. -/
def EntryHolds
    (store : StackStore)
    (emptyIsAny : Bool)
    (entry : StackEntry)
    (returns : List Nat) :
    Prop :=
  (entry.returnState = none ∧ (emptyIsAny = true ∨ returns = [])) ∨
    ∃ follow outer,
      entry.returnState = some follow ∧ returns = follow :: outer ∧
        store.Holds emptyIsAny entry.below outer

/-- One of some entries stands for a list of return states. -/
def EntriesHold
    (store : StackStore)
    (emptyIsAny : Bool)
    (entries : List StackEntry)
    (returns : List Nat) :
    Prop :=
  ∃ entry ∈ entries, store.EntryHolds emptyIsAny entry returns

/-- The entries can be those of a stack. -/
structure Fit
    (store : StackStore)
    (entries : List StackEntry) :
    Prop where
  below : ∀ entry ∈ entries, entry.below < store.nodes.size
  bottom : ∀ entry ∈ entries, entry.returnState = none → entry.below = StackId.empty

namespace WellMade

variable (wellMade : store.WellMade)

include wellMade

/-- A stack stands for what its entries stand for, its bottom being spelled out. -/
theorem holds_iff
    {returns : List Nat} :
    store.Holds emptyIsAny stack returns ↔
      store.EntriesHold emptyIsAny (store.spelledEntries stack) returns := by
  by_cases isEmpty : stack = StackId.empty
  · subst isEmpty
    simp only [spelledEntries, ↓reduceIte, EntriesHold, List.mem_singleton, exists_eq_left,
      EntryHolds, StackEntry.bottom, true_and, reduceCtorEq, false_and, exists_false, or_false]
    constructor
    · intro holds
      cases holds with
      | empty ends => exact ends
      | bottom present => simp [wellMade.entries_empty] at present
      | entry present => simp [wellMade.entries_empty] at present
    · exact .empty
  · simp only [spelledEntries, isEmpty, ↓reduceIte]
    constructor
    · intro holds
      cases holds with
      | empty => exact absurd rfl isEmpty
      | bottom present ends => exact ⟨_, present, .inl ⟨rfl, ends⟩⟩
      | entry present rest => exact ⟨_, present, .inr ⟨_, _, rfl, rfl, rest⟩⟩
    · rintro ⟨⟨returnState, below⟩, present, ⟨isNone, ends⟩ | ⟨follow, outer, isSome, rfl, rest⟩⟩
      · cases isNone
        exact .bottom present ends
      · cases isSome
        exact .entry present rest

/-- The empty stack stands for no returns, or for any. -/
theorem holds_empty_iff
    {returns : List Nat} :
    store.Holds emptyIsAny StackId.empty returns ↔ emptyIsAny = true ∨ returns = [] := by
  rw [wellMade.holds_iff]
  simp [spelledEntries, EntriesHold, EntryHolds, StackEntry.bottom]

/-- The entries of a stack fit. -/
theorem fit_spelledEntries
    (valid : stack < store.nodes.size) :
    store.Fit (store.spelledEntries stack) := by
  by_cases isEmpty : stack = StackId.empty
  · simp only [spelledEntries, isEmpty, ↓reduceIte]
    refine ⟨?_, ?_⟩
    · intro entry member
      rw [List.mem_singleton.mp member]
      exact wellMade.empty_valid
    · intro entry member _
      rw [List.mem_singleton.mp member]
      rfl
  · simp only [spelledEntries, isEmpty, ↓reduceIte]
    exact ⟨fun entry => wellMade.below_valid valid, fun entry => wellMade.bottom⟩

/-- Where entries of one return state lead to different stacks, these come before their own. -/
theorem below_lt
    (firstValid : first < store.nodes.size)
    (secondValid : second < store.nodes.size)
    {entry entry' : StackEntry}
    (member : entry ∈ store.spelledEntries first)
    (member' : entry' ∈ store.spelledEntries second)
    (same : entry.returnState = entry'.returnState)
    (different : entry.below ≠ entry'.below) :
    entry.below < first ∧ entry'.below < second := by
  have notBottom : entry.returnState ≠ none := by
    intro isNone
    have atBottom := (wellMade.fit_spelledEntries firstValid).bottom entry member isNone
    have atBottom' := (wellMade.fit_spelledEntries secondValid).bottom entry' member' (same ▸ isNone)
    exact different (atBottom.trans atBottom'.symm)
  have inStack :
      ∀ {stack : StackId} {entry : StackEntry},
        entry ∈ store.spelledEntries stack → entry.returnState ≠ none →
          entry.below < stack := by
    intro stack entry member notBottom
    by_cases isEmpty : stack = StackId.empty
    · simp only [spelledEntries, isEmpty, ↓reduceIte, List.mem_singleton] at member
      exact absurd (member ▸ rfl) notBottom
    · simp only [spelledEntries, isEmpty, ↓reduceIte] at member
      exact wellMade.below member
  exact ⟨inStack member notBottom, inStack member' (same ▸ notBottom)⟩

theorem spelledEntries_ne_nil
    (valid : stack < store.nodes.size) :
    store.spelledEntries stack ≠ [] := by
  by_cases isEmpty : stack = StackId.empty
  · simp [spelledEntries, isEmpty]
  · simpa [spelledEntries, isEmpty] using wellMade.nonempty isEmpty valid

end WellMade

/-- A stack with the given entries is there, and those that were there before still are. -/
structure Interns
    (store : StackStore)
    (entries : List StackEntry)
    (made : StackId × StackStore) :
    Prop where
  wellMade : made.2.WellMade
  grows : store.Grows made.2
  valid : made.1 < made.2.nodes.size
  spelled : made.2.spelledEntries made.1 = entries

/-- Adding a node for entries that no node has keeps a store well made. -/
theorem interns_of_new
    (wellMade : store.WellMade)
    {entries : List StackEntry}
    (fit : store.Fit entries)
    (nonempty : entries ≠ []) :
    store.Interns entries
      (store.nodes.size,
        { store with
          nodes := store.nodes.push entries
          interned := store.interned.insert entries store.nodes.size }) := by
  generalize isAfter :
    ({ store with
        nodes := store.nodes.push entries
        interned := store.interned.insert entries store.nodes.size } : StackStore) = after
  have grows : store.Grows after := by
    refine ⟨?_⟩
    intro stack known present
    subst isAfter
    obtain ⟨inBounds, rfl⟩ := Array.getElem?_eq_some_iff.mp present
    simp [Array.getElem?_push_lt inBounds]
  have added : after.entries store.nodes.size = entries := by
    subst isAfter
    simp [StackStore.entries, Array.getD_eq_getD_getElem?]
  have size : after.nodes.size = store.nodes.size + 1 := by
    subst isAfter
    simp
  have cases_valid :
      ∀ {stack : StackId} {entry : StackEntry},
        entry ∈ after.entries stack →
          stack < store.nodes.size ∧ entry ∈ store.entries stack ∨
            stack = store.nodes.size ∧ entry ∈ entries := by
    intro stack entry present
    rcases lt_trichotomy stack store.nodes.size with valid | rfl | outside
    · rw [grows.entries valid] at present
      exact .inl ⟨valid, present⟩
    · rw [added] at present
      exact .inr ⟨rfl, present⟩
    · have isNone : after.nodes[stack]? = none := by
        rw [Array.getElem?_eq_none_iff, size]
        exact outside
      simp [StackStore.entries, Array.getD_eq_getD_getElem?, isNone] at present
  have isStack : store.nodes.size ≠ StackId.empty :=
    ne_of_gt wellMade.empty_valid
  exact {
    wellMade := {
      empty := grows.kept wellMade.empty
      below := by
        intro stack entry present
        rcases cases_valid present with ⟨_, wasPresent⟩ | ⟨rfl, member⟩
        · exact wellMade.below wasPresent
        · exact fit.below entry member
      bottom := by
        intro stack entry present isNone
        rcases cases_valid present with ⟨_, wasPresent⟩ | ⟨rfl, member⟩
        · exact wellMade.bottom wasPresent isNone
        · exact fit.bottom entry member isNone
      nonempty := by
        intro stack notEmpty valid
        rcases Nat.lt_succ_iff_lt_or_eq.mp (size ▸ valid) with valid | rfl
        · rw [grows.entries valid]
          exact wellMade.nonempty notEmpty valid
        · rw [added]
          exact nonempty
      interned := by
        intro others stack known
        subst isAfter
        rw [Std.HashMap.getElem?_insert] at known
        split at known
        · rename_i same
          cases known
          simp [eq_of_beq same]
        · exact grows.kept (wellMade.interned known)
      merged := by
        intro first second stack emptyIsAny known
        have wasKnown : store.merged[(first, second, emptyIsAny)]? = some stack := by
          subst isAfter
          exact known
        obtain ⟨firstValid, secondValid, valid, joins⟩ := wellMade.merged wasKnown
        exact ⟨grows.valid firstValid, grows.valid secondValid, grows.valid valid,
          grows.joins wellMade firstValid secondValid valid joins⟩ }
    grows := grows
    valid := by simp [size]
    spelled := by simp [spelledEntries, isStack, added] }

/-- A stack with given entries is made. -/
theorem interns_intern
    (wellMade : store.WellMade)
    {entries : List StackEntry}
    (fit : store.Fit entries)
    (nonempty : entries ≠ []) :
    store.Interns entries ((intern entries).run store) := by
  by_cases isBottom : entries = [StackEntry.bottom]
  · have isRun : (intern entries).run store = (StackId.empty, store) := by
      simp [intern, isBottom]
      rfl
    rw [isRun]
    exact ⟨wellMade, Grows.refl store, wellMade.empty_valid, by simp [spelledEntries, isBottom]⟩
  · cases known : store.interned[entries]? with
    | some stack =>
        have isRun : (intern entries).run store = (stack, store) := by
          simp [intern, nonempty, isBottom, known]
          rfl
        have present := wellMade.interned known
        have isEntries := entries_of_getElem? present
        have notEmpty : stack ≠ StackId.empty := by
          rintro rfl
          rw [wellMade.entries_empty] at isEntries
          exact nonempty isEntries.symm
        rw [isRun]
        exact ⟨wellMade, Grows.refl store, (Array.getElem?_eq_some_iff.mp present).1,
          by simp [spelledEntries, notEmpty, isEntries]⟩
    | none =>
        have isRun :
            (intern entries).run store =
              (store.nodes.size,
                { store with
                  nodes := store.nodes.push entries
                  interned := store.interned.insert entries store.nodes.size }) := by
          simp [intern, nonempty, isBottom, known]
          rfl
        rw [isRun]
        exact interns_of_new wellMade fit nonempty

/-- Pushing a return state makes a stack with a single way to return. -/
theorem interns_push
    (wellMade : store.WellMade)
    (valid : stack < store.nodes.size)
    (follow : Nat) :
    store.Interns [⟨some follow, stack⟩] ((push stack follow).run store) :=
  interns_intern wellMade ⟨by simpa using valid, by simp⟩ (by simp)

/-- What entries without a bottom lead to is without a bottom. -/
theorem Interns.bottomless
    {entries : List StackEntry}
    {made : StackId × StackStore}
    (interns : store.Interns entries made)
    (returns : ∀ entry ∈ entries, entry.returnState ≠ none)
    (below : ∀ entry ∈ entries, made.2.Bottomless entry.below) :
    made.2.Bottomless made.1 := by
  have spelled := interns.spelled
  by_cases isEmpty : made.1 = StackId.empty
  · rw [isEmpty]
    exact .empty
  · simp only [spelledEntries, isEmpty, ↓reduceIte] at spelled
    subst spelled
    exact .entries returns below

/-- Two stacks are merged, and the stacks that were there before still are. -/
structure Merges
    (store : StackStore)
    (emptyIsAny : Bool)
    (first second : StackId)
    (made : StackId × StackStore) :
    Prop where
  wellMade : made.2.WellMade
  grows : store.Grows made.2
  valid : made.1 < made.2.nodes.size
  joins : made.2.Joins emptyIsAny first second made.1
  same : first = second → made.1 = first

/-- No entry is, or leads to, a bottom other than the empty stack. -/
def EntriesBottomless
    (store : StackStore)
    (entries : List StackEntry) :
    Prop :=
  ∀ entry ∈ entries, entry.returnState ≠ none ∧ store.Bottomless entry.below

/-- Entries are merged, and the stacks that were there before still are. -/
structure MergesEntries
    (store : StackStore)
    (emptyIsAny : Bool)
    (firsts seconds : List StackEntry)
    (made : List StackEntry × StackStore) :
    Prop where
  wellMade : made.2.WellMade
  grows : store.Grows made.2
  fit : made.2.Fit made.1
  nonempty : firsts ≠ [] → made.1 ≠ []
  upper :
    ∀ {returns : List Nat},
      made.2.EntriesHold emptyIsAny firsts returns ∨
          made.2.EntriesHold emptyIsAny seconds returns →
        made.2.EntriesHold emptyIsAny made.1 returns
  lower :
    emptyIsAny = false →
      ∀ {returns : List Nat},
        made.2.EntriesHold false made.1 returns →
          made.2.EntriesHold false firsts returns ∨ made.2.EntriesHold false seconds returns
  bottomless :
    emptyIsAny = true →
      made.2.EntriesBottomless firsts → made.2.EntriesBottomless seconds →
        made.2.EntriesBottomless made.1

theorem Joins.self (stack : StackId) : store.Joins emptyIsAny stack stack stack where
  upper := by
    intro returns
    exact Or.rec id id
  lower _ := .inl
  bottomless _ bottomless _ := bottomless

theorem Joins.symm
    (joins : store.Joins emptyIsAny first second stack) :
    store.Joins emptyIsAny second first stack where
  upper either := joins.upper either.symm
  lower isExact _ holds := (joins.lower isExact holds).symm
  bottomless isAny firstBottomless secondBottomless :=
    joins.bottomless isAny secondBottomless firstBottomless

theorem Merges.self
    (wellMade : store.WellMade)
    (valid : stack < store.nodes.size) :
    store.Merges emptyIsAny stack stack (stack, store) :=
  ⟨wellMade, .refl store, valid, .self stack, fun _ => rfl⟩

theorem Fit.grows
    {entries : List StackEntry}
    (fit : store.Fit entries)
    (grows : store.Grows after) :
    after.Fit entries :=
  ⟨fun entry member => grows.valid (fit.below entry member), fit.bottom⟩

theorem entriesHold_cons
    {entry : StackEntry}
    {entries : List StackEntry}
    {returns : List Nat} :
    store.EntriesHold emptyIsAny (entry :: entries) returns ↔
      store.EntryHolds emptyIsAny entry returns ∨
        store.EntriesHold emptyIsAny entries returns := by
  simp [EntriesHold]

theorem not_entriesHold_nil
    {returns : List Nat} :
    ¬ store.EntriesHold emptyIsAny [] returns := by
  simp [EntriesHold]

/-- An entry stands for what the stacks below two entries stand for once they are joined. -/
theorem Joins.upper_entry
    {entry entry' : StackEntry}
    {below : StackId}
    {returns : List Nat}
    (joins : store.Joins emptyIsAny entry.below entry'.below below)
    (same : entry.returnState = entry'.returnState)
    (holds :
      store.EntryHolds emptyIsAny entry returns ∨ store.EntryHolds emptyIsAny entry' returns) :
    store.EntryHolds emptyIsAny ⟨entry.returnState, below⟩ returns := by
  rcases holds with
    (⟨isNone, ends⟩ | ⟨follow, outer, isSome, isReturns, rest⟩) |
    (⟨isNone, ends⟩ | ⟨follow, outer, isSome, isReturns, rest⟩)
  · exact .inl ⟨isNone, ends⟩
  · exact .inr ⟨follow, outer, isSome, isReturns, joins.upper (.inl rest)⟩
  · exact .inl ⟨same.trans isNone, ends⟩
  · exact .inr ⟨follow, outer, same.trans isSome, isReturns, joins.upper (.inr rest)⟩

theorem Joins.lower_entry
    {entry entry' : StackEntry}
    {below : StackId}
    {returns : List Nat}
    (joins : store.Joins emptyIsAny entry.below entry'.below below)
    (same : entry.returnState = entry'.returnState)
    (isExact : emptyIsAny = false)
    (holds : store.EntryHolds false ⟨entry.returnState, below⟩ returns) :
    store.EntryHolds false entry returns ∨ store.EntryHolds false entry' returns := by
  rcases holds with ⟨isNone, ends⟩ | ⟨follow, outer, isSome, isReturns, rest⟩
  · exact .inl (.inl ⟨isNone, ends⟩)
  · rcases joins.lower isExact rest with rest | rest
    · exact .inl (.inr ⟨follow, outer, isSome, isReturns, rest⟩)
    · exact .inr (.inr ⟨follow, outer, same.symm.trans isSome, isReturns, rest⟩)

/-- Stacks that were joined are joined in every later store. -/
theorem Merges.joinsLater
    {entry entry' : StackEntry}
    {below : StackId}
    {last : StackStore}
    (joined : store.Merges emptyIsAny entry.below entry'.below (below, after))
    (fit : store.Fit [entry])
    (fit' : store.Fit [entry'])
    (grows : after.Grows last) :
    last.Joins emptyIsAny entry.below entry'.below below :=
  grows.joins joined.wellMade (joined.grows.valid (fit.below entry (by simp)))
    (joined.grows.valid (fit'.below entry' (by simp))) joined.valid joined.joins

theorem Fit.of_cons
    {entry : StackEntry}
    {entries : List StackEntry}
    (fit : store.Fit (entry :: entries)) :
    store.Fit entries :=
  ⟨fun other member => fit.below other (by simp [member]),
    fun other member => fit.bottom other (by simp [member])⟩

theorem Fit.head
    {entry : StackEntry}
    {entries : List StackEntry}
    (fit : store.Fit (entry :: entries)) :
    store.Fit [entry] :=
  ⟨by simpa using fit.below entry (by simp), by simpa using fit.bottom entry (by simp)⟩

namespace MergesEntries

variable {entry : StackEntry} {firsts seconds : List StackEntry} {made : List StackEntry × StackStore}

/-- An entry of the first list that comes before the rest can be kept. -/
theorem cons_first
    (merges : store.MergesEntries emptyIsAny firsts seconds made)
    (fit : made.2.Fit [entry]) :
    store.MergesEntries emptyIsAny (entry :: firsts) seconds (entry :: made.1, made.2) where
  wellMade := merges.wellMade
  grows := merges.grows
  fit := by
    refine ⟨?_, ?_⟩
    · simpa using ⟨fit.below entry (by simp), merges.fit.below⟩
    · simpa using ⟨fit.bottom entry (by simp), merges.fit.bottom⟩
  nonempty := by simp
  upper := by
    intro returns holds
    simp only [entriesHold_cons] at holds ⊢
    have upper := @merges.upper returns
    tauto
  lower := by
    intro isExact returns holds
    simp only [entriesHold_cons] at holds ⊢
    have lower : made.2.EntriesHold false made.1 returns → _ := merges.lower isExact
    tauto
  bottomless := by
    intro isAny firstBottomless secondBottomless
    have rest :=
      merges.bottomless isAny (fun other member => firstBottomless other (by simp [member]))
        secondBottomless
    exact List.forall_mem_cons.mpr ⟨firstBottomless entry (by simp), rest⟩

/-- An entry of the second list that comes before the rest can be kept. -/
theorem cons_second
    (merges : store.MergesEntries emptyIsAny firsts seconds made)
    (fit : made.2.Fit [entry]) :
    store.MergesEntries emptyIsAny firsts (entry :: seconds) (entry :: made.1, made.2) where
  wellMade := merges.wellMade
  grows := merges.grows
  fit := (merges.cons_first fit).fit
  nonempty := by simp
  upper := by
    intro returns holds
    simp only [entriesHold_cons] at holds ⊢
    have upper := @merges.upper returns
    tauto
  lower := by
    intro isExact returns holds
    simp only [entriesHold_cons] at holds ⊢
    have lower : made.2.EntriesHold false made.1 returns → _ := merges.lower isExact
    tauto
  bottomless := by
    intro isAny firstBottomless secondBottomless
    have rest :=
      merges.bottomless isAny firstBottomless
        (fun other member => secondBottomless other (by simp [member]))
    exact List.forall_mem_cons.mpr ⟨secondBottomless entry (by simp), rest⟩

/-- Two entries of the same return state become one, with what is below them joined. -/
theorem cons_both
    {entry' : StackEntry}
    {below : StackId}
    (merges : after.MergesEntries emptyIsAny firsts seconds made)
    (joined : store.Merges emptyIsAny entry.below entry'.below (below, after))
    (fit : store.Fit [entry])
    (fit' : store.Fit [entry'])
    (same : entry.returnState = entry'.returnState)
    (bottom : entry.returnState = none → below = StackId.empty) :
    store.MergesEntries emptyIsAny (entry :: firsts) (entry' :: seconds)
      (⟨entry.returnState, below⟩ :: made.1, made.2) where
  wellMade := merges.wellMade
  grows := joined.grows.trans merges.grows
  fit := by
    refine ⟨?_, ?_⟩
    · simpa using ⟨merges.grows.valid joined.valid, merges.fit.below⟩
    · simpa using ⟨bottom, merges.fit.bottom⟩
  nonempty := by simp
  upper := by
    intro returns holds
    have joins := joined.joinsLater fit fit' merges.grows
    have entryUpper :
        made.2.EntryHolds emptyIsAny entry returns ∨
          made.2.EntryHolds emptyIsAny entry' returns → _ := joins.upper_entry same
    have upper := @merges.upper returns
    simp only [entriesHold_cons] at holds ⊢
    tauto
  lower := by
    intro isExact returns holds
    have joins := joined.joinsLater fit fit' merges.grows
    have entryLower :
        made.2.EntryHolds false ⟨entry.returnState, below⟩ returns → _ :=
      joins.lower_entry same isExact
    have lower : made.2.EntriesHold false made.1 returns → _ := merges.lower isExact
    simp only [entriesHold_cons] at holds ⊢
    tauto
  bottomless := by
    intro isAny firstBottomless secondBottomless
    have joins := joined.joinsLater fit fit' merges.grows
    have rest :=
      merges.bottomless isAny (fun other member => firstBottomless other (by simp [member]))
        (fun other member => secondBottomless other (by simp [member]))
    refine List.forall_mem_cons.mpr ⟨⟨(firstBottomless entry (by simp)).1, ?_⟩, rest⟩
    exact joins.bottomless isAny (firstBottomless entry (by simp)).2
      (secondBottomless entry' (by simp)).2

end MergesEntries

section RunMergeEntries

variable
  (mergeBelow : StackId → StackId → StateM StackStore StackId)
  (store : StackStore)
  {entry entry' : StackEntry}
  (rest rest' : List StackEntry)

theorem run_mergeEntries_nil
    (seconds : List StackEntry) :
    (mergeEntries mergeBelow [] seconds).run store = (seconds, store) := by
  simp [mergeEntries]
  rfl

theorem run_mergeEntries_nil_right
    (firsts : List StackEntry) :
    (mergeEntries mergeBelow firsts []).run store = (firsts, store) := by
  cases firsts <;> simp [mergeEntries] <;> rfl

/-- Entries of the same return state become one, with what is below them merged. -/
theorem run_mergeEntries_same
    (same : entry.returnState = entry'.returnState) :
    (mergeEntries mergeBelow (entry :: rest) (entry' :: rest')).run store =
      (let joined :=
        if entry.below = entry'.below then
          (entry.below, store)
        else
          (mergeBelow entry.below entry'.below).run store
      let made := (mergeEntries mergeBelow rest rest').run joined.2
      (⟨entry.returnState, joined.1⟩ :: made.1, made.2)) := by
  rw [mergeEntries]
  by_cases sameBelow : entry.below = entry'.below
  · simp only [same, sameBelow, ↓reduceIte]
    rfl
  · simp only [same, sameBelow, ↓reduceIte]
    rfl

/-- The first entry is kept where it comes before the second one. -/
theorem run_mergeEntries_before
    (different : entry.returnState ≠ entry'.returnState)
    (before : entry.isBefore entry' = true) :
    (mergeEntries mergeBelow (entry :: rest) (entry' :: rest')).run store =
      (let made := (mergeEntries mergeBelow rest (entry' :: rest')).run store
      (entry :: made.1, made.2)) := by
  rw [mergeEntries]
  simp only [different, before, ↓reduceIte]
  rfl

/-- The second entry is kept where the first one does not come before it. -/
theorem run_mergeEntries_after
    (different : entry.returnState ≠ entry'.returnState)
    (notBefore : ¬ entry.isBefore entry' = true) :
    (mergeEntries mergeBelow (entry :: rest) (entry' :: rest')).run store =
      (let made := (mergeEntries mergeBelow (entry :: rest) rest').run store
      (entry' :: made.1, made.2)) := by
  rw [mergeEntries]
  simp only [different, notBefore, ↓reduceIte]
  rfl

end RunMergeEntries

/-- Entries are merged if the stacks below entries of the same return state are. -/
theorem mergesEntries_mergeEntries
    (mergeBelow : StackId → StackId → StateM StackStore StackId)
    (firsts seconds : List StackEntry)
    (merges :
      ∀ entry ∈ firsts, ∀ entry' ∈ seconds,
        entry.returnState = entry'.returnState →
          entry.below ≠ entry'.below →
            ∀ {store : StackStore},
              store.WellMade →
                entry.below < store.nodes.size →
                  entry'.below < store.nodes.size →
                    store.Merges emptyIsAny entry.below entry'.below
                      ((mergeBelow entry.below entry'.below).run store))
    (wellMade : store.WellMade)
    (fit : store.Fit firsts)
    (fit' : store.Fit seconds) :
    store.MergesEntries emptyIsAny firsts seconds
      ((mergeEntries mergeBelow firsts seconds).run store) := by
  induction firsts, seconds using mergeEntries.induct mergeBelow generalizing store with
  | case1 seconds =>
      rw [run_mergeEntries_nil]
      exact {
        wellMade := wellMade
        grows := .refl store
        fit := fit'
        nonempty := absurd rfl
        upper := Or.rec (fun holds => absurd holds not_entriesHold_nil) id
        lower := fun _ => .inr
        bottomless := fun _ _ bottomless => bottomless }
  | case2 firsts notNil =>
      rw [run_mergeEntries_nil_right]
      exact {
        wellMade := wellMade
        grows := .refl store
        fit := fit
        nonempty := id
        upper := Or.rec id (fun holds => absurd holds not_entriesHold_nil)
        lower := fun _ => .inl
        bottomless := fun _ bottomless _ => bottomless }
  | case3 entry rest entry' rest' same sameBelow inductionHypothesis =>
      rw [run_mergeEntries_same _ _ _ _ same, if_pos sameBelow]
      have belowValid := fit.below entry (by simp)
      have joined :
          store.Merges emptyIsAny entry.below entry'.below (entry.below, store) := by
        rw [← sameBelow]
        exact .self wellMade belowValid
      have made :=
        inductionHypothesis
          (fun one isOne other isOther => merges one (by simp [isOne]) other (by simp [isOther]))
          wellMade fit.of_cons fit'.of_cons
      exact made.cons_both joined fit.head fit'.head same (fit.bottom entry (by simp))
  | case4 entry rest entry' rest' same different inductionHypothesis =>
      rw [run_mergeEntries_same _ _ _ _ same, if_neg different]
      have joined :=
        merges entry (by simp) entry' (by simp) same different wellMade
          (fit.below entry (by simp)) (fit'.below entry' (by simp))
      have made :=
        inductionHypothesis
          (fun one isOne other isOther => merges one (by simp [isOne]) other (by simp [isOther]))
          joined.wellMade (fit.of_cons.grows joined.grows) (fit'.of_cons.grows joined.grows)
      refine made.cons_both joined fit.head fit'.head same ?_
      intro isNone
      have atBottom := fit.bottom entry (by simp) isNone
      have atBottom' := fit'.bottom entry' (by simp) (same ▸ isNone)
      exact absurd (atBottom.trans atBottom'.symm) different
  | case5 entry rest entry' rest' different before inductionHypothesis =>
      rw [run_mergeEntries_before _ _ _ _ different before]
      have made :=
        inductionHypothesis
          (fun one isOne other isOther => merges one (by simp [isOne]) other isOther)
          wellMade fit.of_cons fit'
      exact made.cons_first (fit.head.grows made.grows)
  | case6 entry rest entry' rest' different notBefore inductionHypothesis =>
      rw [run_mergeEntries_after _ _ _ _ different notBefore]
      have made :=
        inductionHypothesis
          (fun one isOne other isOther => merges one isOne other (by simp [isOther]))
          wellMade fit fit'.of_cons
      exact made.cons_second (fit'.head.grows made.grows)

namespace Grows

variable (grows : store.Grows after)

include grows

theorem spelledEntries
    (valid : stack < store.nodes.size) :
    after.spelledEntries stack = store.spelledEntries stack := by
  unfold StackStore.spelledEntries
  rw [grows.entries valid]

/-- Entries go on standing for what they stood for. -/
theorem entriesHold_iff
    (wellMade : store.WellMade)
    {entries : List StackEntry}
    (fit : store.Fit entries)
    {returns : List Nat} :
    after.EntriesHold emptyIsAny entries returns ↔
      store.EntriesHold emptyIsAny entries returns := by
  refine exists_congr fun entry => and_congr_right fun member => ?_
  unfold EntryHolds
  simp only [grows.holds_iff wellMade (fit.below entry member)]

theorem entriesBottomless_iff
    (wellMade : store.WellMade)
    {entries : List StackEntry}
    (fit : store.Fit entries) :
    after.EntriesBottomless entries ↔ store.EntriesBottomless entries := by
  refine forall₂_congr fun entry member => ?_
  rw [grows.bottomless_iff wellMade (fit.below entry member)]

end Grows

/-- Merged entries that become the entries of a stack make it the merged stack. -/
theorem MergesEntries.merges
    {made : List StackEntry × StackStore}
    (merged :
      store.MergesEntries emptyIsAny (store.spelledEntries first) (store.spelledEntries second)
        made)
    (wellMade : store.WellMade)
    (firstValid : first < store.nodes.size)
    (secondValid : second < store.nodes.size)
    (different : first ≠ second)
    (notEmpty : emptyIsAny = true → first ≠ StackId.empty ∧ second ≠ StackId.empty) :
    store.Merges emptyIsAny first second ((intern made.1).run made.2) := by
  have nonempty := merged.nonempty (wellMade.spelledEntries_ne_nil firstValid)
  have interns := interns_intern merged.wellMade merged.fit nonempty
  generalize (intern made.1).run made.2 = result at interns
  have grows := merged.grows.trans interns.grows
  have holds_of_merged :
      ∀ {emptyIsAny : Bool} {stack : StackId} {returns : List Nat},
        stack < store.nodes.size →
          (result.2.Holds emptyIsAny stack returns ↔
            made.2.EntriesHold emptyIsAny (store.spelledEntries stack) returns) := by
    intro emptyIsAny stack returns valid
    have fit := (wellMade.fit_spelledEntries valid).grows merged.grows
    rw [interns.wellMade.holds_iff, grows.spelledEntries valid,
      interns.grows.entriesHold_iff merged.wellMade fit]
  have holds_result :
      ∀ {emptyIsAny : Bool} {returns : List Nat},
        result.2.Holds emptyIsAny result.1 returns ↔
          made.2.EntriesHold emptyIsAny made.1 returns := by
    intro emptyIsAny returns
    rw [interns.wellMade.holds_iff, interns.spelled,
      interns.grows.entriesHold_iff merged.wellMade merged.fit]
  refine ⟨interns.wellMade, grows, interns.valid, ⟨?_, ?_, ?_⟩, fun same => absurd same different⟩
  · intro returns
    rw [holds_of_merged firstValid, holds_of_merged secondValid, holds_result]
    exact merged.upper
  · intro isExact returns
    rw [holds_of_merged firstValid, holds_of_merged secondValid, holds_result]
    exact merged.lower isExact
  · intro isAny firstBottomless secondBottomless
    obtain ⟨firstIsStack, secondIsStack⟩ := notEmpty isAny
    have entriesBottomless :
        ∀ {stack : StackId},
          stack < store.nodes.size → stack ≠ StackId.empty → result.2.Bottomless stack →
            made.2.EntriesBottomless (store.spelledEntries stack) := by
      intro stack valid isStack bottomless
      rw [grows.bottomless_iff wellMade valid] at bottomless
      have fit := wellMade.fit_spelledEntries valid
      rw [merged.grows.entriesBottomless_iff wellMade fit]
      cases bottomless with
      | empty => exact absurd rfl isStack
      | entries returns below =>
          intro entry member
          simp only [StackStore.spelledEntries, isStack, ↓reduceIte] at member
          exact ⟨returns entry member, below entry member⟩
    have bottomless :=
      merged.bottomless isAny (entriesBottomless firstValid firstIsStack firstBottomless)
        (entriesBottomless secondValid secondIsStack secondBottomless)
    refine interns.bottomless (fun entry member => (bottomless entry member).1) ?_
    intro entry member
    rw [interns.grows.bottomless_iff merged.wellMade (merged.fit.below entry member)]
    exact (bottomless entry member).2

/-- Entries that are those of both lists, in any order, merge them. -/
theorem mergesEntries_of_mem_iff
    (wellMade : store.WellMade)
    {firsts seconds made : List StackEntry}
    (fit : store.Fit firsts)
    (fit' : store.Fit seconds)
    (isUnion : ∀ entry, entry ∈ made ↔ entry ∈ firsts ∨ entry ∈ seconds) :
    store.MergesEntries emptyIsAny firsts seconds (made, store) := by
  have holds_iff :
      ∀ {emptyIsAny : Bool} {returns : List Nat},
        store.EntriesHold emptyIsAny made returns ↔
          store.EntriesHold emptyIsAny firsts returns ∨
            store.EntriesHold emptyIsAny seconds returns := by
    intro emptyIsAny returns
    simp only [EntriesHold, isUnion, or_and_right, exists_or]
  refine ⟨wellMade, .refl store, ⟨?_, ?_⟩, ?_, holds_iff.mpr, fun _ _ => holds_iff.mp, ?_⟩
  · intro entry member
    exact ((isUnion entry).mp member).elim (fit.below entry) (fit'.below entry)
  · intro entry member
    exact ((isUnion entry).mp member).elim (fit.bottom entry) (fit'.bottom entry)
  · intro nonempty isNil
    obtain ⟨entry, member⟩ := List.exists_mem_of_ne_nil firsts nonempty
    have inMade := (isUnion entry).mpr (.inl member)
    rw [show made = [] from isNil] at inMade
    cases inMade
  · intro _ bottomless bottomless' entry member
    exact ((isUnion entry).mp member).elim (bottomless entry) (bottomless' entry)

/-- Where the empty stack is any stack, it takes in whatever it is merged with. -/
theorem merges_empty
    (wellMade : store.WellMade)
    (different : first ≠ second) :
    store.Merges true first second (StackId.empty, store) where
  wellMade := wellMade
  grows := .refl store
  valid := wellMade.empty_valid
  joins := {
    upper := fun _ => .empty (.inl rfl)
    lower := fun isExact => absurd isExact (by simp)
    bottomless := fun _ _ _ => .empty }
  same := fun same => absurd same different

theorem entries_of_isSingle
    (single : store.isSingle stack = true)
    (isStack : stack ≠ StackId.empty) :
    ∃ entry, store.entries stack = [entry] := by
  simp only [isSingle, Bool.or_eq_true, beq_iff_eq, isStack, false_or] at single
  exact List.length_eq_one_iff.mp single

section MergeBelow

variable
  (mergeBelow : StackId → StackId → StateM StackStore StackId)
  (wellMade : store.WellMade)
  (firstValid : first < store.nodes.size)
  (secondValid : second < store.nodes.size)
  (different : first ≠ second)
  (merges :
    ∀ {below below' : StackId} {store : StackStore},
      below < first →
        below' < second →
          store.WellMade →
            below < store.nodes.size →
              below' < store.nodes.size →
                store.Merges emptyIsAny below below' ((mergeBelow below below').run store))

include wellMade firstValid secondValid different merges

/-- Merging goes right for stacks that each have a single way to start returning. -/
theorem merges_mergeSingles
    (firstSingle : store.isSingle first = true)
    (secondSingle : store.isSingle second = true) :
    store.Merges emptyIsAny first second
      ((mergeSingles mergeBelow emptyIsAny first second).run store) := by
  have fit := wellMade.fit_spelledEntries firstValid
  have fit' := wellMade.fit_spelledEntries secondValid
  by_cases firstEmpty : first = StackId.empty
  · have secondIsStack : second ≠ StackId.empty := fun isEmpty =>
      different (firstEmpty.trans isEmpty.symm)
    cases emptyIsAny with
    | true =>
        have isRun :
            (mergeSingles mergeBelow true first second).run store = (StackId.empty, store) := by
          simp [mergeSingles, firstEmpty]
          rfl
        rw [isRun]
        exact merges_empty wellMade different
    | false =>
        have isRun :
            (mergeSingles mergeBelow false first second).run store =
              (intern (store.spelledEntries second ++ [StackEntry.bottom])).run store := by
          simp [mergeSingles, firstEmpty]
        rw [isRun]
        have made :
            store.MergesEntries false (store.spelledEntries first)
              (store.spelledEntries second)
              (store.spelledEntries second ++ [StackEntry.bottom], store) := by
          refine mergesEntries_of_mem_iff wellMade fit fit' fun entry => ?_
          rw [List.mem_append, or_comm]
          simp [spelledEntries, firstEmpty]
        exact made.merges wellMade firstValid secondValid different (by simp)
  · by_cases secondEmpty : second = StackId.empty
    · cases emptyIsAny with
      | true =>
          have isRun :
              (mergeSingles mergeBelow true first second).run store =
                (StackId.empty, store) := by
            simp [mergeSingles, secondEmpty]
            rfl
          rw [isRun]
          exact merges_empty wellMade different
      | false =>
          have isRun :
              (mergeSingles mergeBelow false first second).run store =
                (intern (store.spelledEntries first ++ [StackEntry.bottom])).run store := by
            simp [mergeSingles, firstEmpty, secondEmpty]
          rw [isRun]
          have made :
              store.MergesEntries false (store.spelledEntries first)
                (store.spelledEntries second)
                (store.spelledEntries first ++ [StackEntry.bottom], store) := by
            refine mergesEntries_of_mem_iff wellMade fit fit' fun entry => ?_
            rw [List.mem_append]
            simp [spelledEntries, secondEmpty]
          exact made.merges wellMade firstValid secondValid different (by simp)
    · obtain ⟨entry, isEntry⟩ := entries_of_isSingle firstSingle firstEmpty
      obtain ⟨entry', isEntry'⟩ := entries_of_isSingle secondSingle secondEmpty
      have spelled : store.spelledEntries first = [entry] := by
        simp [spelledEntries, firstEmpty, isEntry]
      have spelled' : store.spelledEntries second = [entry'] := by
        simp [spelledEntries, secondEmpty, isEntry']
      rw [spelled] at fit
      rw [spelled'] at fit'
      by_cases same : entry.returnState = entry'.returnState
      · have isRun :
            (mergeSingles mergeBelow emptyIsAny first second).run store =
              (let joined := (mergeBelow entry.below entry'.below).run store
              (intern [⟨entry.returnState, joined.1⟩]).run joined.2) := by
          simp [mergeSingles, firstEmpty, secondEmpty, isEntry, isEntry', same]
          rfl
        rw [isRun]
        have joined :=
          merges (wellMade.below (by simp [isEntry])) (wellMade.below (by simp [isEntry']))
            wellMade (fit.below entry (by simp)) (fit'.below entry' (by simp))
        have rest :
            ((mergeBelow entry.below entry'.below).run store).2.MergesEntries emptyIsAny [] []
              ([], ((mergeBelow entry.below entry'.below).run store).2) :=
          mergesEntries_of_mem_iff joined.wellMade ⟨by simp, by simp⟩ ⟨by simp, by simp⟩
            (by simp)
        have made := rest.cons_both joined fit fit' same (by
          intro isNone
          have atBottom := fit.bottom entry (by simp) isNone
          have atBottom' := fit'.bottom entry' (by simp) (same ▸ isNone)
          exact (joined.same (atBottom.trans atBottom'.symm)).trans atBottom)
        rw [← spelled, ← spelled'] at made
        exact made.merges wellMade firstValid secondValid different
          fun _ => ⟨firstEmpty, secondEmpty⟩
      · have kept :
            ∀ {entries : List StackEntry},
              (∀ other, other ∈ entries ↔ other ∈ [entry] ∨ other ∈ [entry']) →
                store.Merges emptyIsAny first second ((intern entries).run store) := by
          intro entries isUnion
          have made : store.MergesEntries emptyIsAny [entry] [entry'] (entries, store) :=
            mergesEntries_of_mem_iff wellMade fit fit' isUnion
          rw [← spelled, ← spelled'] at made
          exact made.merges wellMade firstValid secondValid different
            fun _ => ⟨firstEmpty, secondEmpty⟩
        by_cases before : entry.isBefore entry' = true
        · have isRun :
              (mergeSingles mergeBelow emptyIsAny first second).run store =
                (intern [entry, entry']).run store := by
            simp [mergeSingles, firstEmpty, secondEmpty, isEntry, isEntry', same, before]
          rw [isRun]
          exact kept (by simp)
        · have isRun :
              (mergeSingles mergeBelow emptyIsAny first second).run store =
                (intern [entry', entry]).run store := by
            simp [mergeSingles, firstEmpty, secondEmpty, isEntry, isEntry', same, before]
          rw [isRun]
          exact kept (by simp [or_comm])

/-- Merging goes right for two stacks if it does for what is below them. -/
theorem merges_mergeAnew :
    store.Merges emptyIsAny first second
      ((mergeAnew mergeBelow emptyIsAny first second).run store) := by
  by_cases single : store.isSingle first = true ∧ store.isSingle second = true
  · have isRun :
        (mergeAnew mergeBelow emptyIsAny first second).run store =
          (mergeSingles mergeBelow emptyIsAny first second).run store := by
      simp [mergeAnew, single]
    rw [isRun]
    exact merges_mergeSingles mergeBelow wellMade firstValid secondValid different merges
      single.1 single.2
  · by_cases anyEmpty :
        emptyIsAny = true ∧ (first = StackId.empty ∨ second = StackId.empty)
    · have isRun :
          (mergeAnew mergeBelow emptyIsAny first second).run store =
            (StackId.empty, store) := by
        simp [mergeAnew, single, anyEmpty]
        rfl
      rw [isRun, anyEmpty.1]
      exact merges_empty wellMade different
    · have isRun :
          (mergeAnew mergeBelow emptyIsAny first second).run store =
            (let made :=
              (mergeEntries mergeBelow (store.spelledEntries first)
                (store.spelledEntries second)).run store
            (intern made.1).run made.2) := by
        simp [mergeAnew, single, anyEmpty]
        rfl
      rw [isRun]
      have fit := wellMade.fit_spelledEntries firstValid
      have fit' := wellMade.fit_spelledEntries secondValid
      refine MergesEntries.merges ?_ wellMade firstValid secondValid different ?_
      · refine mergesEntries_mergeEntries mergeBelow _ _ ?_ wellMade fit fit'
        intro entry member entry' member' same belowDifferent store' wellMade' valid valid'
        obtain ⟨below, below'⟩ :=
          wellMade.below_lt firstValid secondValid member member' same belowDifferent
        exact merges below below' wellMade' valid valid'
      · intro isAny
        exact not_or.mp fun anyIsEmpty => anyEmpty ⟨isAny, anyIsEmpty⟩

end MergeBelow

/-- Remembering what two stacks merge to keeps a store well made. -/
theorem Merges.remember
    {made : StackId × StackStore}
    (merges : store.Merges emptyIsAny first second made)
    (firstValid : first < store.nodes.size)
    (secondValid : second < store.nodes.size) :
    store.Merges emptyIsAny first second
      (made.1,
        { made.2 with
          merged :=
            made.2.merged.insert (min first second, max first second, emptyIsAny) made.1 }) := by
  generalize isAfter :
    ({ made.2 with
        merged :=
          made.2.merged.insert (min first second, max first second, emptyIsAny) made.1 } :
      StackStore) = after
  have grows : made.2.Grows after := by
    subst isAfter
    exact ⟨id⟩
  have firstIn := merges.grows.valid firstValid
  have secondIn := merges.grows.valid secondValid
  have wellMade := merges.wellMade
  have joins := grows.joins wellMade firstIn secondIn merges.valid merges.joins
  have sameNodes : after.nodes = made.2.nodes := by
    subst isAfter
    rfl
  have sameEntries : after.entries = made.2.entries := by
    funext stack
    simp only [StackStore.entries, sameNodes]
  have sameInterned : after.interned = made.2.interned := by
    subst isAfter
    rfl
  refine ⟨?_, merges.grows.trans grows, grows.valid merges.valid, joins, merges.same⟩
  exact {
    empty := grows.kept wellMade.empty
    below := by
      rw [sameEntries]
      exact wellMade.below
    bottom := by
      rw [sameEntries]
      exact wellMade.bottom
    nonempty := by
      rw [sameEntries, sameNodes]
      exact wellMade.nonempty
    interned := by
      rw [sameInterned, sameNodes]
      exact wellMade.interned
    merged := by
      intro one other stack isAny known
      have known' :
          (made.2.merged.insert (min first second, max first second, emptyIsAny) made.1)[(one,
            other, isAny)]? = some stack := by
        subst isAfter
        exact known
      rw [Std.HashMap.getElem?_insert] at known'
      split at known'
      · rename_i isKey
        obtain ⟨rfl, rfl, rfl⟩ : min first second = one ∧ max first second = other ∧
            emptyIsAny = isAny := by
          simpa using isKey
        cases known'
        rcases le_total first second with ordered | ordered
        · rw [min_eq_left ordered, max_eq_right ordered, sameNodes]
          exact ⟨firstIn, secondIn, merges.valid, joins⟩
        · rw [min_eq_right ordered, max_eq_left ordered, sameNodes]
          exact ⟨secondIn, firstIn, merges.valid, joins.symm⟩
      · obtain ⟨oneValid, otherValid, valid, wasJoined⟩ := wellMade.merged known'
        exact ⟨grows.valid oneValid, grows.valid otherValid, grows.valid valid,
          grows.joins wellMade oneValid otherValid valid wasJoined⟩ }

/-- Merging two stacks of which one has a small number goes right. -/
theorem merges_mergeWithin
    (depth : Nat)
    (wellMade : store.WellMade)
    (firstValid : first < store.nodes.size)
    (secondValid : second < store.nodes.size)
    (small : min first second < depth) :
    store.Merges emptyIsAny first second
      ((mergeWithin emptyIsAny depth first second).run store) := by
  induction depth generalizing store first second with
  | zero => exact absurd small (Nat.not_lt_zero _)
  | succ depth inductionHypothesis =>
      by_cases same : first = second
      · have isRun :
            (mergeWithin emptyIsAny (depth + 1) first second).run store = (first, store) := by
          simp [mergeWithin, same]
          rfl
        rw [isRun, same]
        exact .self wellMade secondValid
      · cases known : store.merged[(min first second, max first second, emptyIsAny)]? with
        | some stack =>
            have isRun :
                (mergeWithin emptyIsAny (depth + 1) first second).run store =
                  (stack, store) := by
              simp [mergeWithin, same, known]
              rfl
            rw [isRun]
            obtain ⟨_, _, valid, joins⟩ := wellMade.merged known
            refine ⟨wellMade, .refl store, valid, ?_, fun again => absurd again same⟩
            rcases le_total first second with ordered | ordered
            · rwa [min_eq_left ordered, max_eq_right ordered] at joins
            · rw [min_eq_right ordered, max_eq_left ordered] at joins
              exact joins.symm
        | none =>
            have isRun :
                (mergeWithin emptyIsAny (depth + 1) first second).run store =
                  (let made :=
                    (mergeAnew (mergeWithin emptyIsAny depth) emptyIsAny first second).run store
                  (made.1,
                    { made.2 with
                      merged :=
                        made.2.merged.insert
                          (min first second, max first second, emptyIsAny) made.1 })) := by
              simp [mergeWithin, same, known]
              rfl
            rw [isRun]
            refine Merges.remember ?_ firstValid secondValid
            refine merges_mergeAnew _ wellMade firstValid secondValid same ?_
            intro below below' store belowFirst belowSecond wellMade valid valid'
            refine inductionHypothesis wellMade valid valid' ?_
            exact lt_of_lt_of_le (min_lt_min belowFirst belowSecond) (Nat.le_of_lt_succ small)

/-- Merging two stacks gives a stack that joins them. -/
theorem merges_merge
    (wellMade : store.WellMade)
    (firstValid : first < store.nodes.size)
    (secondValid : second < store.nodes.size) :
    store.Merges emptyIsAny first second ((merge first second emptyIsAny).run store) :=
  merges_mergeWithin _ wellMade firstValid secondValid (Nat.lt_succ_self _)

end StackStore

end GrammarService
