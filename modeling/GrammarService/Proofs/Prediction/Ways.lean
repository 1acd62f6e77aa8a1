import GrammarService.Proofs.Prediction.Tidy

namespace GrammarService

/-!
# Ways through stacks

A way through a stack is spelled by the states that it returns to, one after the other, and by the
bottom where it comes to one. So a stack can be read in either way, with the empty stack as any
stack or not, no matter in which way it was made: where the empty stack is any stack, whatever is
spelled is a way through it, and a bottom above other stacks is nothing but one more letter.

A store in which merges of both kinds are mixed keeps to one number for each set of ways, and
merging two stacks unites their ways.
-/

namespace StackStore

variable
  {store after : StackStore}
  {emptyIsAny : Bool}
  {readings : Set Bool}
  {stack first second : StackId}
  {way : List (Option Nat)}

/-- A stack has a way that is spelled like this; what comes behind a bottom does not matter. -/
def Spells
    (store : StackStore)
    (emptyIsAny : Bool) :
    StackId → List (Option Nat) → Prop
  | stack, [] => emptyIsAny = true ∧ stack = StackId.empty
  | stack, letter :: way =>
      emptyIsAny = true ∧ stack = StackId.empty ∨
        ∃ entry ∈ store.spelledEntries stack,
          entry.returnState = letter ∧
            (letter = none ∨ store.Spells emptyIsAny entry.below way)

/-- A way begins with an entry. -/
def EntrySpells
    (store : StackStore)
    (emptyIsAny : Bool)
    (entry : StackEntry)
    (way : List (Option Nat)) :
    Prop :=
  ∃ rest, way = entry.returnState :: rest ∧
    (entry.returnState = none ∨ store.Spells emptyIsAny entry.below rest)

/-- A way begins with one of some entries. -/
def EntriesSpell
    (store : StackStore)
    (emptyIsAny : Bool)
    (entries : List StackEntry)
    (way : List (Option Nat)) :
    Prop :=
  ∃ entry ∈ entries, store.EntrySpells emptyIsAny entry way

/-- The ways through a stack begin with its entries, unless it is any stack. -/
theorem spells_iff :
    store.Spells emptyIsAny stack way ↔
      emptyIsAny = true ∧ stack = StackId.empty ∨
        store.EntriesSpell emptyIsAny (store.spelledEntries stack) way := by
  cases way with
  | nil => simp [Spells, EntriesSpell, EntrySpells]
  | cons letter way =>
      rw [Spells]
      refine or_congr_right (exists_congr fun entry => and_congr_right fun _ => ?_)
      constructor
      · rintro ⟨rfl, isSpelled⟩
        exact ⟨way, rfl, isSpelled⟩
      · rintro ⟨rest, isWay, isSpelled⟩
        obtain ⟨rfl, rfl⟩ := List.cons.inj isWay
        exact ⟨rfl, isSpelled⟩

@[simp] theorem entriesSpell_nil : ¬ store.EntriesSpell emptyIsAny [] way := by
  simp [EntriesSpell]

@[simp] theorem entriesSpell_cons
    {entry : StackEntry}
    {entries : List StackEntry} :
    store.EntriesSpell emptyIsAny (entry :: entries) way ↔
      store.EntrySpells emptyIsAny entry way ∨ store.EntriesSpell emptyIsAny entries way :=
  List.exists_mem_cons_iff ..

/-- The ways through stacks depend on nodes only. -/
theorem spells_congr
    (sameNodes : after.nodes = store.nodes) :
    after.Spells emptyIsAny stack way ↔ store.Spells emptyIsAny stack way := by
  induction way generalizing stack with
  | nil => rfl
  | cons letter way inductionHypothesis =>
      simp only [Spells, inductionHypothesis, spelledEntries, StackStore.entries, sameNodes]

namespace Grows

variable (grows : store.Grows after) (wellMade : store.WellMade)

include grows wellMade

/-- The ways through a stack stay the same. -/
theorem spells_iff
    (isIn : store.IsIn stack) :
    after.Spells emptyIsAny stack way ↔ store.Spells emptyIsAny stack way := by
  induction way generalizing stack with
  | nil => rfl
  | cons letter way inductionHypothesis =>
      rw [Spells, Spells, grows.spelledEntries isIn]
      refine or_congr_right (exists_congr fun entry => and_congr_right fun member => ?_)
      rw [inductionHypothesis ((wellMade.fit_spelledEntries isIn).below entry member)]

theorem entrySpells_iff
    {entry : StackEntry}
    (isIn : store.IsIn entry.below) :
    after.EntrySpells emptyIsAny entry way ↔ store.EntrySpells emptyIsAny entry way := by
  simp only [EntrySpells, grows.spells_iff wellMade isIn]

/-- The ways that begin with some entries stay the same. -/
theorem entriesSpell_iff
    {entries : List StackEntry}
    (fit : store.Fit entries) :
    after.EntriesSpell emptyIsAny entries way ↔ store.EntriesSpell emptyIsAny entries way :=
  exists_congr fun entry => and_congr_right fun member =>
    grows.entrySpells_iff wellMade (fit.below entry member)

end Grows

/--
A tidy store that remembers of merges, in some ways to read the empty stack, what is true. No stack
ends above another one unless the empty stack is read as an end.
-/
structure Sound
    (readings : Set Bool)
    (store : StackStore) :
    Prop extends Tidy store where
  noBottom :
    false ∉ readings →
      ∀ (stack : StackId), ∀ entry ∈ store.entries stack, entry.returnState ≠ none
  sound :
    ∀ {first second stack : StackId} {emptyIsAny : Bool},
      emptyIsAny ∈ readings →
        store.merged[(first, second, emptyIsAny)]? = some stack →
          ∀ way,
            store.Spells emptyIsAny stack way ↔
              store.Spells emptyIsAny first way ∨ store.Spells emptyIsAny second way

/-- The first store is sound. -/
theorem Sound.initial (readings : Set Bool) : initial.Sound readings where
  toTidy := .initial
  noBottom _ stack := by cases stack <;> simp [StackStore.initial, StackStore.entries]
  sound := by simp [StackStore.initial]

/-- Making a stack of fitting ascending entries keeps a store sound. -/
theorem Sound.intern
    (sound : store.Sound readings)
    {entries : List StackEntry}
    (fit : store.Fit entries)
    (nonempty : entries ≠ [])
    (ascends : Ascends entries)
    (noBottom : false ∉ readings → ∀ entry ∈ entries, entry.returnState ≠ none) :
    ((intern entries).run store).2.Sound readings where
  toTidy := sound.toTidy.intern fit nonempty ascends
  noBottom isAny stack := by
    rcases entries_intern store entries stack with same | ⟨-, same⟩ <;> rw [same]
    · exact sound.noBottom isAny stack
    · exact noBottom isAny
  sound := by
    intro first second stack emptyIsAny isReading isMerged way
    rw [merged_intern] at isMerged
    obtain ⟨firstIsIn, secondIsIn, isIn, -⟩ := sound.merged isMerged
    have grows := (Keeps.intern entries store).toGrows
    rw [grows.spells_iff sound.toWellMade firstIsIn, grows.spells_iff sound.toWellMade secondIsIn,
      grows.spells_iff sound.toWellMade isIn]
    exact sound.sound isReading isMerged way

/-- Pushing a state to return to keeps a store sound. -/
theorem Sound.push
    (sound : store.Sound readings)
    (isIn : store.IsIn stack)
    (follow : Nat) :
    ((push stack follow).run store).2.Sound readings :=
  sound.intern ⟨List.forall_mem_singleton.mpr isIn, by simp⟩ (by simp) (by simp [Ascends])
    (by simp)

/-- Two stacks are merged into one that has the ways of both. -/
structure UnitesWays
    (store : StackStore)
    (readings : Set Bool)
    (emptyIsAny : Bool)
    (first second : StackId)
    (made : StackId × StackStore) :
    Prop where
  sound : made.2.Sound readings
  grows : store.Grows made.2
  isIn : made.2.IsIn made.1
  united :
    ∀ way,
      made.2.Spells emptyIsAny made.1 way ↔
        store.Spells emptyIsAny first way ∨ store.Spells emptyIsAny second way

/-- Two lists of entries are merged into one that has the ways of both. -/
structure UnitesEntryWays
    (store : StackStore)
    (readings : Set Bool)
    (emptyIsAny : Bool)
    (firsts seconds : List StackEntry)
    (made : List StackEntry × StackStore) :
    Prop where
  sound : made.2.Sound readings
  grows : store.Grows made.2
  fit : made.2.Fit made.1
  returnStates :
    ∀ {returnState : Option Nat},
      (∃ entry ∈ made.1, entry.returnState = returnState) ↔
        (∃ entry ∈ firsts, entry.returnState = returnState) ∨
          ∃ entry ∈ seconds, entry.returnState = returnState
  ascends : Ascends made.1
  united :
    ∀ way,
      made.2.EntriesSpell emptyIsAny made.1 way ↔
        store.EntriesSpell emptyIsAny firsts way ∨ store.EntriesSpell emptyIsAny seconds way

/-- The ways of an entry once what is below it and another one was merged. -/
theorem UnitesWays.entrySpells_iff
    {entry entry' : StackEntry}
    {below : StackId}
    (unites : store.UnitesWays readings emptyIsAny entry.below entry'.below (below, after))
    (same : entry.returnState = entry'.returnState) :
    after.EntrySpells emptyIsAny ⟨entry.returnState, below⟩ way ↔
      store.EntrySpells emptyIsAny entry way ∨ store.EntrySpells emptyIsAny entry' way := by
  rw [EntrySpells, EntrySpells, EntrySpells, ← same, ← exists_or]
  refine exists_congr fun rest => ?_
  rw [unites.united, or_or_distrib_left, and_or_left]

theorem UnitesWays.self
    (sound : store.Sound readings)
    (isIn : store.IsIn stack) :
    store.UnitesWays readings emptyIsAny stack stack (stack, store) :=
  ⟨sound, .refl store, isIn, fun _ => or_self_iff.symm⟩

namespace UnitesEntryWays

variable
  {entry entry' : StackEntry}
  {firsts seconds : List StackEntry}
  {made : List StackEntry × StackStore}

theorem symm
    (unites : store.UnitesEntryWays readings emptyIsAny firsts seconds made) :
    store.UnitesEntryWays readings emptyIsAny seconds firsts made where
  sound := unites.sound
  grows := unites.grows
  fit := unites.fit
  returnStates := unites.returnStates.trans or_comm
  ascends := unites.ascends
  united way := (unites.united way).trans or_comm

/-- An entry that comes before all others is kept. -/
theorem cons_first
    (unites : store.UnitesEntryWays readings emptyIsAny firsts seconds made)
    (wellMade : store.WellMade)
    (fit : store.Fit [entry])
    (before : ∀ other ∈ firsts, entry.isBefore other = true)
    (before' : ∀ other ∈ seconds, entry.isBefore other = true) :
    store.UnitesEntryWays readings emptyIsAny (entry :: firsts) seconds
      (entry :: made.1, made.2) where
  sound := unites.sound
  grows := unites.grows
  fit := by
    have fitLater := fit.grows unites.grows
    refine ⟨?_, ?_⟩
    · simpa using ⟨fitLater.below entry (by simp), unites.fit.below⟩
    · simpa using ⟨fitLater.bottom entry (by simp), unites.fit.bottom⟩
  returnStates := by
    simp only [List.exists_mem_cons_iff, unites.returnStates, or_assoc, implies_true]
  ascends := unites.ascends.cons unites.returnStates.mp before before'
  united way := by
    rw [entriesSpell_cons, entriesSpell_cons, unites.united, or_assoc,
      unites.grows.entrySpells_iff wellMade (fit.below entry (by simp))]

/-- Two entries of the same return state that come before all others become one. -/
theorem cons_both
    {below : StackId}
    (unites : after.UnitesEntryWays readings emptyIsAny firsts seconds made)
    (joined : store.UnitesWays readings emptyIsAny entry.below entry'.below (below, after))
    (wellMade : store.WellMade)
    (fit : store.Fit firsts)
    (fit' : store.Fit seconds)
    (same : entry.returnState = entry'.returnState)
    (bottom : entry.returnState = none → below = StackId.empty)
    (before : ∀ other ∈ firsts, entry.isBefore other = true)
    (before' : ∀ other ∈ seconds, entry'.isBefore other = true) :
    store.UnitesEntryWays readings emptyIsAny (entry :: firsts) (entry' :: seconds)
      (⟨entry.returnState, below⟩ :: made.1, made.2) where
  sound := unites.sound
  grows := joined.grows.trans unites.grows
  fit := by
    refine ⟨?_, ?_⟩
    · simpa using ⟨unites.grows.valid joined.isIn, unites.fit.below⟩
    · simpa using ⟨bottom, unites.fit.bottom⟩
  returnStates := by
    intro returnState
    simp only [List.exists_mem_cons_iff, unites.returnStates, ← same]
    exact or_or_distrib_left
  ascends := by
    refine unites.ascends.cons unites.returnStates.mp before fun other member => ?_
    have isBefore := before' other member
    unfold StackEntry.isBefore at isBefore ⊢
    rwa [same]
  united way := by
    rw [entriesSpell_cons, entriesSpell_cons, entriesSpell_cons, unites.united,
      unites.grows.entrySpells_iff joined.sound.toWellMade joined.isIn,
      joined.entrySpells_iff same, joined.grows.entriesSpell_iff wellMade fit,
      joined.grows.entriesSpell_iff wellMade fit']
    exact or_or_or_comm

end UnitesEntryWays

/-- Ascending entries are merged into ascending ones if the stacks below them are merged. -/
theorem unitesEntryWays_mergeEntries
    (mergeBelow : StackId → StackId → StateM StackStore StackId)
    (firsts seconds : List StackEntry)
    (unites :
      ∀ entry ∈ firsts, ∀ entry' ∈ seconds,
        entry.returnState = entry'.returnState →
          entry.below ≠ entry'.below →
            ∀ {store : StackStore},
              store.Sound readings →
                store.IsIn entry.below →
                  store.IsIn entry'.below →
                    store.UnitesWays readings emptyIsAny entry.below entry'.below
                      ((mergeBelow entry.below entry'.below).run store))
    (sound : store.Sound readings)
    (fit : store.Fit firsts)
    (fit' : store.Fit seconds)
    (ascends : Ascends firsts)
    (ascends' : Ascends seconds) :
    store.UnitesEntryWays readings emptyIsAny firsts seconds
      ((mergeEntries mergeBelow firsts seconds).run store) := by
  induction firsts, seconds using mergeEntries.induct mergeBelow generalizing store with
  | case1 seconds =>
      rw [run_mergeEntries_nil]
      exact ⟨sound, .refl store, fit', by simp, ascends', by simp⟩
  | case2 firsts notNil =>
      rw [run_mergeEntries_nil_right]
      exact ⟨sound, .refl store, fit, by simp, ascends, by simp⟩
  | case3 entry rest entry' rest' same sameBelow inductionHypothesis =>
      rw [run_mergeEntries_same _ _ _ _ same, if_pos sameBelow]
      obtain ⟨before, restAscends⟩ := List.pairwise_cons.mp ascends
      obtain ⟨before', restAscends'⟩ := List.pairwise_cons.mp ascends'
      have made :=
        inductionHypothesis
          (fun one isOne other isOther => unites one (by simp [isOne]) other (by simp [isOther]))
          sound fit.of_cons fit'.of_cons restAscends restAscends'
      have joined :
          store.UnitesWays readings emptyIsAny entry.below entry'.below (entry.below, store) := by
        rw [← sameBelow]
        exact .self sound (fit.below entry (by simp))
      exact made.cons_both joined sound.toWellMade fit.of_cons fit'.of_cons same
        (fit.bottom entry (by simp)) before before'
  | case4 entry rest entry' rest' same different inductionHypothesis =>
      rw [run_mergeEntries_same _ _ _ _ same, if_neg different]
      obtain ⟨before, restAscends⟩ := List.pairwise_cons.mp ascends
      obtain ⟨before', restAscends'⟩ := List.pairwise_cons.mp ascends'
      have joined :=
        unites entry (by simp) entry' (by simp) same different sound
          (fit.below entry (by simp)) (fit'.below entry' (by simp))
      have made :=
        inductionHypothesis
          (fun one isOne other isOther => unites one (by simp [isOne]) other (by simp [isOther]))
          joined.sound (fit.of_cons.grows joined.grows) (fit'.of_cons.grows joined.grows)
          restAscends restAscends'
      refine made.cons_both joined sound.toWellMade fit.of_cons fit'.of_cons same ?_ before
        before'
      intro isNone
      have atBottom := fit.bottom entry (by simp) isNone
      have atBottom' := fit'.bottom entry' (by simp) (same ▸ isNone)
      exact absurd (atBottom.trans atBottom'.symm) different
  | case5 entry rest entry' rest' different isBefore inductionHypothesis =>
      rw [run_mergeEntries_before _ _ _ _ different isBefore]
      obtain ⟨before, restAscends⟩ := List.pairwise_cons.mp ascends
      have made :=
        inductionHypothesis
          (fun one isOne other isOther => unites one (by simp [isOne]) other isOther)
          sound fit.of_cons fit' restAscends ascends'
      refine made.cons_first sound.toWellMade fit.head before ?_
      exact forall_isBefore isBefore ascends'
  | case6 entry rest entry' rest' different notBefore inductionHypothesis =>
      rw [run_mergeEntries_after _ _ _ _ different notBefore]
      obtain ⟨before', restAscends'⟩ := List.pairwise_cons.mp ascends'
      have made :=
        inductionHypothesis
          (fun one isOne other isOther => unites one isOne other (by simp [isOther]))
          sound fit fit'.of_cons ascends restAscends'
      refine (made.symm.cons_first sound.toWellMade fit'.head before' ?_).symm
      exact forall_isBefore (StackEntry.isBefore_of_not_isBefore different notBefore) ascends

/-- A stack that is not any stack is spelled without a bottom where the empty stack is no end. -/
theorem Sound.noBottom_spelledEntries
    (sound : store.Sound readings)
    (isReading : emptyIsAny ∈ readings)
    (notAny : ¬ (emptyIsAny = true ∧ stack = StackId.empty))
    (isAny : false ∉ readings) :
    ∀ entry ∈ store.spelledEntries stack, entry.returnState ≠ none := by
  have isTrue : emptyIsAny = true := by
    cases emptyIsAny with
    | true => rfl
    | false => exact absurd isReading isAny
  rw [spelledEntries, if_neg fun isEmpty => notAny ⟨isTrue, isEmpty⟩]
  exact sound.noBottom isAny stack

/-- Merged entries become the entries of the merged stack, unless one stack is any stack. -/
theorem UnitesEntryWays.unites
    {made : List StackEntry × StackStore}
    (merged :
      store.UnitesEntryWays readings emptyIsAny (store.spelledEntries first)
        (store.spelledEntries second) made)
    (sound : store.Sound readings)
    (isReading : emptyIsAny ∈ readings)
    (firstIsIn : store.IsIn first)
    (notAbsorbed :
      ¬ (emptyIsAny = true ∧ (first = StackId.empty ∨ second = StackId.empty))) :
    store.UnitesWays readings emptyIsAny first second ((intern made.1).run made.2) := by
  have firstNotAny : ¬ (emptyIsAny = true ∧ first = StackId.empty) :=
    fun isAny => notAbsorbed ⟨isAny.1, .inl isAny.2⟩
  have secondNotAny : ¬ (emptyIsAny = true ∧ second = StackId.empty) :=
    fun isAny => notAbsorbed ⟨isAny.1, .inr isAny.2⟩
  have nonempty : made.1 ≠ [] := by
    obtain ⟨entry, member⟩ :=
      List.exists_mem_of_ne_nil _ (sound.spelledEntries_ne_nil firstIsIn)
    obtain ⟨twin, isTwin, -⟩ := merged.returnStates.mpr (.inl ⟨entry, member, rfl⟩)
    exact List.ne_nil_of_mem isTwin
  have interns := interns_intern merged.sound.toWellMade merged.fit nonempty
  have noBottom : false ∉ readings → ∀ entry ∈ made.1, entry.returnState ≠ none := by
    intro isAny entry member isNone
    rcases merged.returnStates.mp ⟨entry, member, isNone⟩ with
      ⟨twin, isTwin, twinNone⟩ | ⟨twin, isTwin, twinNone⟩
    · exact sound.noBottom_spelledEntries isReading firstNotAny isAny twin isTwin twinNone
    · exact sound.noBottom_spelledEntries isReading secondNotAny isAny twin isTwin twinNone
  refine ⟨merged.sound.intern merged.fit nonempty merged.ascends noBottom,
    merged.grows.trans interns.grows, interns.valid, fun way => ?_⟩
  -- The merged stack returns to a state, as the two do, where the empty stack is any stack.
  have notAny :
      ¬ (emptyIsAny = true ∧ ((StackStore.intern made.1).run made.2).1 = StackId.empty) := by
    rintro ⟨isAny, isEmpty⟩
    have firstIsStack : first ≠ StackId.empty := fun isEmpty => firstNotAny ⟨isAny, isEmpty⟩
    obtain ⟨follow, below, isFirst⟩ := sound.exists_follow firstIsStack firstIsIn
    obtain ⟨twin, isTwin, isFollow⟩ :=
      merged.returnStates.mpr
        (.inl ⟨⟨some follow, below⟩, by simpa [spelledEntries, firstIsStack] using isFirst, rfl⟩)
    have spelled := interns.spelled
    rw [spelledEntries, if_pos isEmpty] at spelled
    rw [← spelled, List.mem_singleton] at isTwin
    rw [isTwin] at isFollow
    cases isFollow
  rw [spells_iff, or_iff_right notAny, interns.spelled,
    interns.grows.entriesSpell_iff merged.sound.toWellMade merged.fit, merged.united,
    spells_iff, or_iff_right firstNotAny, spells_iff, or_iff_right secondNotAny]

/-- The empty stack takes in what it is merged with where it is any stack. -/
theorem unitesWays_empty
    (sound : store.Sound readings)
    (anyEmpty : first = StackId.empty ∨ second = StackId.empty) :
    store.UnitesWays readings true first second (StackId.empty, store) := by
  refine ⟨sound, .refl store, sound.empty_valid, fun way => ?_⟩
  have all : store.Spells true StackId.empty way := spells_iff.mpr (.inl ⟨rfl, rfl⟩)
  rcases anyEmpty with rfl | rfl <;> simp [all]

/-- Remembering what two stacks were merged to keeps a store sound. -/
theorem UnitesWays.remember
    {made : StackId × StackStore}
    (unites : store.UnitesWays readings emptyIsAny first second made)
    (isRemembered :
      after =
        { made.2 with
          merged := made.2.merged.insert (mergeKey emptyIsAny first second) made.1 })
    (wellMade : store.WellMade)
    (firstIsIn : store.IsIn first)
    (secondIsIn : store.IsIn second)
    (afterWellMade : after.WellMade) :
    store.UnitesWays readings emptyIsAny first second (made.1, after) := by
  have sameNodes : after.nodes = made.2.nodes := by rw [isRemembered]
  have sameEntries : after.entries = made.2.entries := by
    funext stack
    simp only [StackStore.entries, sameNodes]
  have sameSpells :
      ∀ {emptyIsAny : Bool} {stack : StackId} {way : List (Option Nat)},
        after.Spells emptyIsAny stack way ↔ made.2.Spells emptyIsAny stack way :=
    spells_congr sameNodes
  have united :
      ∀ way,
        after.Spells emptyIsAny made.1 way ↔
          after.Spells emptyIsAny first way ∨ after.Spells emptyIsAny second way := by
    intro way
    rw [sameSpells, sameSpells, sameSpells, unites.united,
      unites.grows.spells_iff wellMade firstIsIn, unites.grows.spells_iff wellMade secondIsIn]
  have grows : made.2.Grows after := ⟨by rw [sameNodes]; exact id⟩
  refine ⟨⟨⟨afterWellMade, ?_, ?_, ?_⟩, ?_, ?_⟩, unites.grows.trans grows, grows.valid unites.isIn,
    fun way => sameSpells.trans (unites.united way)⟩
  · rw [sameEntries]
    exact unites.sound.ascends
  · rw [sameEntries]
    exact unites.sound.notBottom
  · rw [sameEntries, isRemembered]
    exact unites.sound.known
  · rw [sameEntries]
    exact unites.sound.noBottom
  · intro one other stack reading isReading isKnown way
    simp only [isRemembered, Std.HashMap.getElem?_insert] at isKnown
    split at isKnown
    · rename_i isKey
      obtain ⟨rfl, rfl, rfl⟩ :
          min first second = one ∧ max first second = other ∧ emptyIsAny = reading := by
        simpa [mergeKey] using isKey
      cases isKnown
      rcases le_total first second with ordered | ordered
      · rw [min_eq_left ordered, max_eq_right ordered, united]
      · rw [min_eq_right ordered, max_eq_left ordered, united, or_comm]
    · rw [sameSpells, sameSpells, sameSpells]
      exact unites.sound.sound isReading isKnown way

/-- Merging two stacks of which one has a small number unites their ways. -/
theorem unitesWays_mergeWithin
    (depth : Nat)
    (sound : store.Sound readings)
    (isReading : emptyIsAny ∈ readings)
    (firstIsIn : store.IsIn first)
    (secondIsIn : store.IsIn second)
    (small : min first second < depth) :
    store.UnitesWays readings emptyIsAny first second
      ((mergeWithin emptyIsAny depth first second).run store) := by
  -- Stacks below the two have smaller numbers, so the depth lasts for merging them.
  induction depth generalizing store first second with
  | zero => exact absurd small (Nat.not_lt_zero _)
  | succ depth inductionHypothesis =>
      by_cases same : first = second
      · rw [same, run_mergeWithin_self]
        exact .self sound secondIsIn
      have wellMade :=
        (@merges_mergeWithin store emptyIsAny first second (depth + 1) sound.toWellMade
          firstIsIn secondIsIn small).wellMade
      rw [run_mergeWithin_succ emptyIsAny depth same] at wellMade ⊢
      cases isKnown : store.merged[mergeKey emptyIsAny first second]? with
      | some stack =>
          simp only
          obtain ⟨-, -, isIn, -⟩ := sound.merged isKnown
          refine ⟨sound, .refl store, isIn, fun way => ?_⟩
          rw [sound.sound isReading isKnown]
          rcases le_total first second with ordered | ordered
          · rw [min_eq_left ordered, max_eq_right ordered]
          · rw [min_eq_right ordered, max_eq_left ordered, or_comm]
      | none =>
          simp only [isKnown] at wellMade ⊢
          refine UnitesWays.remember ?_ rfl sound.toWellMade firstIsIn secondIsIn wellMade
          rw [run_mergeAnew _ (run_mergeWithin_self depth) sound.toTidy same]
          split
          · rename_i absorbed
            obtain ⟨rfl, anyEmpty⟩ := absorbed
            exact unitesWays_empty sound anyEmpty
          rename_i notAbsorbed
          refine UnitesEntryWays.unites ?_ sound isReading firstIsIn notAbsorbed
          refine unitesEntryWays_mergeEntries _ _ _ ?_ sound
            (sound.fit_spelledEntries firstIsIn) (sound.fit_spelledEntries secondIsIn)
            (sound.ascends_spelledEntries first) (sound.ascends_spelledEntries second)
          intro entry member entry' member' sameReturn different store' sound' isIn isIn'
          obtain ⟨below, below'⟩ :=
            sound.below_lt firstIsIn secondIsIn member member' sameReturn different
          refine inductionHypothesis sound' isIn isIn' ?_
          exact lt_of_lt_of_le (min_lt_min below below') (Nat.le_of_lt_succ small)

/-- Merging two stacks unites their ways. -/
theorem Sound.unitesWays_merge
    (sound : store.Sound readings)
    (isReading : emptyIsAny ∈ readings)
    (firstIsIn : store.IsIn first)
    (secondIsIn : store.IsIn second) :
    store.UnitesWays readings emptyIsAny first second
      ((merge first second emptyIsAny).run store) :=
  unitesWays_mergeWithin _ sound isReading firstIsIn secondIsIn (Nat.lt_succ_self _)

/-- Every stack has a way. -/
theorem WellMade.exists_spells
    (wellMade : store.WellMade)
    (emptyIsAny : Bool)
    (isIn : store.IsIn stack) :
    ∃ way, store.Spells emptyIsAny stack way := by
  induction stack using Nat.strong_induction_on with
  | _ stack inductionHypothesis =>
      by_cases isEmpty : stack = StackId.empty
      · refine ⟨[none], spells_iff.mpr (.inr ⟨StackEntry.bottom, ?_, [], rfl, .inl rfl⟩)⟩
        simp [spelledEntries, isEmpty]
      · obtain ⟨entry, present⟩ := List.exists_mem_of_ne_nil _ (wellMade.nonempty isEmpty isIn)
        obtain ⟨rest, isSpelled⟩ :=
          inductionHypothesis entry.below (wellMade.below present)
            (wellMade.below_valid isIn present)
        refine ⟨entry.returnState :: rest, spells_iff.mpr (.inr ?_)⟩
        exact ⟨entry, by simpa [spelledEntries, isEmpty] using present, rest, rfl, .inr isSpelled⟩

/-- A way through a stack that is not empty begins with one of its entries. -/
theorem spells_cons_iff
    {letter : Option Nat}
    (isStack : stack ≠ StackId.empty) :
    store.Spells emptyIsAny stack (letter :: way) ↔
      ∃ below, ⟨letter, below⟩ ∈ store.entries stack ∧
        (letter = none ∨ store.Spells emptyIsAny below way) := by
  rw [Spells, or_iff_right fun isAny => isStack isAny.2, spelledEntries, if_neg isStack]
  constructor
  · rintro ⟨⟨_, below⟩, present, rfl, isSpelled⟩
    exact ⟨below, present, isSpelled⟩
  · rintro ⟨below, present, isSpelled⟩
    exact ⟨⟨letter, below⟩, present, rfl, isSpelled⟩

namespace Tidy

variable (tidy : store.Tidy)

include tidy

/-- The ways through the stack below a state to return to. -/
theorem spells_below_iff
    {follow : Nat}
    {below : StackId}
    (isStack : stack ≠ StackId.empty)
    (present : ⟨some follow, below⟩ ∈ store.entries stack) :
    store.Spells emptyIsAny below way ↔ store.Spells emptyIsAny stack (some follow :: way) := by
  rw [spells_cons_iff isStack]
  refine ⟨fun isSpelled => ⟨below, present, .inr isSpelled⟩, ?_⟩
  rintro ⟨other, otherPresent, isSpelled⟩
  rw [tidy.below_unique present otherPresent]
  exact isSpelled.resolve_left (by simp)

/-- The empty stack has a way that no other has, or the other way round. -/
theorem eq_empty_of_same_ways
    (isIn : store.IsIn stack)
    (same :
      ∀ way,
        store.Spells emptyIsAny StackId.empty way ↔ store.Spells emptyIsAny stack way) :
    stack = StackId.empty := by
  by_contra isStack
  cases emptyIsAny with
  | true =>
      have atOnce := (same []).mp ⟨rfl, rfl⟩
      exact isStack atOnce.2
  | false =>
      obtain ⟨follow, below, present⟩ := tidy.exists_follow isStack isIn
      obtain ⟨rest, isSpelled⟩ := tidy.exists_spells false (tidy.below_valid isIn present)
      have isWay := (same _).mpr ((tidy.spells_below_iff isStack present).mp isSpelled)
      simp [Spells, spelledEntries, StackEntry.bottom] at isWay

/-- A stack has the entries of one with the same ways, if what is below them is known. -/
theorem mem_entries_of_same_ways
    (firstIsStack : first ≠ StackId.empty)
    (secondIsStack : second ≠ StackId.empty)
    (firstIsIn : store.IsIn first)
    (same :
      ∀ way, store.Spells emptyIsAny first way ↔ store.Spells emptyIsAny second way)
    (known :
      ∀ {below below' : StackId},
        below < first → below' < second →
          (∀ way, store.Spells emptyIsAny below way ↔ store.Spells emptyIsAny below' way) →
          below = below')
    {entry : StackEntry}
    (present : entry ∈ store.entries first) :
    entry ∈ store.entries second := by
  obtain ⟨letter, below⟩ := entry
  obtain ⟨rest, isSpelled⟩ := tidy.exists_spells emptyIsAny (tidy.below_valid firstIsIn present)
  have isWay := (spells_cons_iff firstIsStack).mpr ⟨below, present, .inr isSpelled⟩
  obtain ⟨below', present', -⟩ := (spells_cons_iff secondIsStack).mp ((same _).mp isWay)
  have sameBelow : below = below' := by
    cases letter with
    | none => exact (tidy.bottom present rfl).trans (tidy.bottom present' rfl).symm
    | some follow =>
        refine known (tidy.below present) (tidy.below present') fun way => ?_
        rw [tidy.spells_below_iff firstIsStack present, same,
          tidy.spells_below_iff secondIsStack present']
  rwa [sameBelow]

/-- Stacks with the same ways are the same. -/
theorem eq_of_same_ways
    (firstIsIn : store.IsIn first)
    (secondIsIn : store.IsIn second)
    (same :
      ∀ way, store.Spells emptyIsAny first way ↔ store.Spells emptyIsAny second way) :
    first = second := by
  -- The ways tell the entries, and by induction on numbers what is below them.
  induction first using Nat.strong_induction_on generalizing second with
  | _ first inductionHypothesis =>
      by_cases firstEmpty : first = StackId.empty
      · subst firstEmpty
        exact (tidy.eq_empty_of_same_ways secondIsIn same).symm
      by_cases secondEmpty : second = StackId.empty
      · subst secondEmpty
        exact tidy.eq_empty_of_same_ways firstIsIn fun way => (same way).symm
      have known :
          ∀ {below below' : StackId},
            below < first → below' < second →
              (∀ way, store.Spells emptyIsAny below way ↔ store.Spells emptyIsAny below' way) →
              below = below' :=
        fun isBelow isBelow' =>
          inductionHypothesis _ isBelow (isBelow.trans firstIsIn) (isBelow'.trans secondIsIn)
      refine tidy.eq_of_same_entries firstEmpty secondEmpty firstIsIn secondIsIn fun entry => ?_
      constructor
      · exact tidy.mem_entries_of_same_ways firstEmpty secondEmpty firstIsIn same known
      · exact
          tidy.mem_entries_of_same_ways secondEmpty firstEmpty secondIsIn
            (fun way => (same way).symm)
            fun isBelow isBelow' sameWays =>
              (known isBelow' isBelow fun way => (sameWays way).symm).symm

end Tidy

end StackStore

end GrammarService
