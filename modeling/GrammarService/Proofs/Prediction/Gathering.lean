import GrammarService.Proofs.Prediction.Indexing
import GrammarService.Proofs.Prediction.Ways

namespace GrammarService

/-!
# What configurations are gathered from

Configurations of one state, alternative and condition are gathered into one, which has the ways of
all their stacks. In one store there is a single stack for those ways, whatever else the store is
used for, so it makes no difference in which order configurations are added.
-/

namespace StackStore

variable
  {store after : StackStore}
  {emptyIsAny : Bool}
  {stack first second : StackId}

/-- Stacks are pushed and merged one after the other, the empty stack being read in either way. -/
inductive Evolves (store : StackStore) : StackStore → Prop where
  | refl : Evolves store store
  | push
      {after : StackStore}
      {below : StackId}
      (evolves : Evolves store after)
      (isIn : after.IsIn below)
      (returnState : Nat) :
      Evolves store ((StackStore.push below returnState).run after).2
  | merge
      {after : StackStore}
      {first second : StackId}
      (evolves : Evolves store after)
      (firstIsIn : after.IsIn first)
      (secondIsIn : after.IsIn second)
      (emptyIsAny : Bool) :
      Evolves store ((StackStore.merge first second emptyIsAny).run after).2

theorem Evolves.trans
    {later : StackStore}
    (earlier : store.Evolves after)
    (evolves : after.Evolves later) :
    store.Evolves later := by
  induction evolves with
  | refl => exact earlier
  | push _ isIn returnState inductionHypothesis =>
      exact .push inductionHypothesis isIn returnState
  | merge _ firstIsIn secondIsIn emptyIsAny inductionHypothesis =>
      exact .merge inductionHypothesis firstIsIn secondIsIn emptyIsAny

/-- A store stays sound in both readings, and keeps what it has. -/
theorem Sound.of_evolves
    (sound : store.Sound .univ)
    (evolves : store.Evolves after) :
    after.Sound .univ ∧ store.Grows after := by
  induction evolves with
  | refl => exact ⟨sound, .refl store⟩
  | push _ isIn returnState inductionHypothesis =>
      obtain ⟨isSound, grows⟩ := inductionHypothesis
      exact ⟨isSound.push isIn returnState,
        grows.trans (interns_push isSound.toWellMade isIn returnState).grows⟩
  | merge _ firstIsIn secondIsIn emptyIsAny inductionHypothesis =>
      obtain ⟨isSound, grows⟩ := inductionHypothesis
      have unites := isSound.unitesWays_merge (Set.mem_univ emptyIsAny) firstIsIn secondIsIn
      exact ⟨unites.sound, grows.trans unites.grows⟩

/-- Merge several stacks, each with what those before it were merged to. -/
def mergeAll (emptyIsAny : Bool) : List StackId → StateM StackStore StackId
  | [] => return StackId.empty
  | first :: others => others.foldlM (fun stack other => merge stack other emptyIsAny) first

/-- Merging several stacks unites their ways. -/
structure UnitesAll
    (store : StackStore)
    (emptyIsAny : Bool)
    (parts : List StackId)
    (made : StackId × StackStore) :
    Prop where
  sound : made.2.Sound .univ
  grows : store.Grows made.2
  isIn : made.2.IsIn made.1
  united :
    ∀ way,
      made.2.Spells emptyIsAny made.1 way ↔
        ∃ stack ∈ parts, store.Spells emptyIsAny stack way

theorem Sound.unitesAll_mergeAll
    (sound : store.Sound .univ)
    {parts : List StackId}
    (nonempty : parts ≠ [])
    (areIn : ∀ stack ∈ parts, store.IsIn stack) :
    store.UnitesAll emptyIsAny parts ((mergeAll emptyIsAny parts).run store) := by
  obtain ⟨first, others, rfl⟩ := List.exists_cons_of_ne_nil nonempty
  obtain ⟨firstIsIn, othersAreIn⟩ := List.forall_mem_cons.mp areIn
  rw [mergeAll]
  clear nonempty areIn
  induction others generalizing first store with
  | nil =>
      refine ⟨sound, .refl store, firstIsIn, fun way => ?_⟩
      rw [List.exists_mem_cons_iff]
      exact (or_iff_left (by simp)).symm
  | cons second others inductionHypothesis =>
      obtain ⟨secondIsIn, othersAreIn⟩ := List.forall_mem_cons.mp othersAreIn
      have unites := sound.unitesWays_merge (Set.mem_univ emptyIsAny) firstIsIn secondIsIn
      have all :=
        inductionHypothesis unites.sound _ unites.isIn fun stack member =>
          unites.grows.valid (othersAreIn stack member)
      rw [List.foldlM_cons]
      refine ⟨all.sound, unites.grows.trans all.grows, all.isIn, fun way => ?_⟩
      have othersStay :
          (∃ stack ∈ others,
              ((merge first second emptyIsAny).run store).2.Spells emptyIsAny stack way) ↔
            ∃ stack ∈ others, store.Spells emptyIsAny stack way :=
        exists_congr fun stack => and_congr_right fun member =>
          unites.grows.spells_iff sound.toWellMade (othersAreIn stack member)
      refine (all.united way).trans ?_
      rw [List.exists_mem_cons_iff, unites.united, othersStay, List.exists_mem_cons_iff,
        List.exists_mem_cons_iff, or_assoc]

/-- Stacks are merged to the one that has all their ways. -/
theorem Sound.mergeAll_eq
    (sound : store.Sound .univ)
    {parts : List StackId}
    (nonempty : parts ≠ [])
    (areIn : ∀ stack ∈ parts, store.IsIn stack)
    (isIn : store.IsIn stack)
    (united :
      ∀ way,
        store.Spells emptyIsAny stack way ↔ ∃ one ∈ parts, store.Spells emptyIsAny one way) :
    ((mergeAll emptyIsAny parts).run store).1 = stack := by
  have all : store.UnitesAll emptyIsAny parts _ := sound.unitesAll_mergeAll nonempty areIn
  refine all.sound.eq_of_same_ways all.isIn (all.grows.valid isIn) fun way =>
    (all.united way).trans ?_
  rw [all.grows.spells_iff sound.toWellMade isIn, united]

end StackStore

namespace Configuration

open ConfigurationSet (indexKey)

variable
  {store after : StackStore}
  {emptyIsAny : Bool}
  {added : List Configuration}
  {configuration other : Configuration}

/-- A configuration has what the added ones have: their key, their ways, and the rest of them. -/
structure GatheredFrom
    (configuration : Configuration)
    (store : StackStore)
    (emptyIsAny : Bool)
    (added : List Configuration) :
    Prop where
  shares : ∀ one ∈ added, indexKey one = indexKey configuration
  isIn : store.IsIn configuration.stack
  areIn : ∀ one ∈ added, store.IsIn one.stack
  ways :
    ∀ way,
      store.Spells emptyIsAny configuration.stack way ↔
        ∃ one ∈ added, store.Spells emptyIsAny one.stack way
  outerReaches :
    IsGreatest {reaches | ∃ one ∈ added, one.outerReaches = reaches} configuration.outerReaches
  filterSuppressed :
    configuration.filterSuppressed = true ↔ ∃ one ∈ added, one.filterSuppressed = true

theorem GatheredFrom.singleton
    (isIn : store.IsIn configuration.stack) :
    configuration.GatheredFrom store emptyIsAny [configuration] where
  shares := by simp
  isIn := isIn
  areIn := by simpa using isIn
  ways := by simp
  outerReaches := by simp
  filterSuppressed := by simp

/-- What was gathered stays so when more stacks are made. -/
theorem GatheredFrom.grows
    (gathered : configuration.GatheredFrom store emptyIsAny added)
    (wellMade : store.WellMade)
    (grows : store.Grows after) :
    configuration.GatheredFrom after emptyIsAny added where
  shares := gathered.shares
  isIn := grows.valid gathered.isIn
  areIn one member := grows.valid (gathered.areIn one member)
  ways way := by
    rw [grows.spells_iff wellMade gathered.isIn, gathered.ways]
    exact exists_congr fun one => and_congr_right fun member =>
      (grows.spells_iff wellMade (gathered.areIn one member)).symm
  outerReaches := gathered.outerReaches
  filterSuppressed := gathered.filterSuppressed

/-- A configuration that takes in one more is gathered from that one too. -/
theorem GatheredFrom.pooledWith
    (gathered : configuration.GatheredFrom store emptyIsAny added)
    (sound : store.Sound .univ)
    (sameKey : indexKey other = indexKey configuration)
    (isIn : store.IsIn other.stack) :
    (configuration.pooledWith store emptyIsAny other).GatheredFrom
      ((StackStore.merge configuration.stack other.stack emptyIsAny).run store).2 emptyIsAny
      (added ++ [other]) := by
  have unites := sound.unitesWays_merge (Set.mem_univ emptyIsAny) gathered.isIn isIn
  have later := gathered.grows sound.toWellMade unites.grows
  refine ⟨?_, unites.isIn, ?_, fun way => ?_, ?_, ?_⟩
  · intro one member
    rcases List.mem_append.mp member with isOld | isNew
    · exact gathered.shares one isOld
    · rw [List.mem_singleton.mp isNew, sameKey]
      rfl
  · intro one member
    rcases List.mem_append.mp member with isOld | isNew
    · exact later.areIn one isOld
    · rw [List.mem_singleton.mp isNew]
      exact unites.grows.valid isIn
  · refine (unites.united way).trans ?_
    simp only [List.mem_append, List.mem_singleton, or_and_right, exists_or, exists_eq_left]
    rw [← later.ways, unites.grows.spells_iff sound.toWellMade gathered.isIn,
      unites.grows.spells_iff sound.toWellMade isIn]
  · have reaches :
        {reaches | ∃ one ∈ added ++ [other], one.outerReaches = reaches} =
          {reaches | ∃ one ∈ added, one.outerReaches = reaches} ∪ {other.outerReaches} := by
      ext reaches
      simp [or_and_right, exists_or, eq_comm, or_comm]
    rw [reaches]
    exact gathered.outerReaches.union isGreatest_singleton
  · simp only [Configuration.pooledWith, joinedWith, Bool.or_eq_true, gathered.filterSuppressed,
      List.mem_append, List.mem_singleton, or_and_right, exists_or, exists_eq_left]

theorem GatheredFrom.ne_nil
    (gathered : configuration.GatheredFrom store emptyIsAny added) :
    added ≠ [] := by
  obtain ⟨one, member, -⟩ := gathered.outerReaches.1
  exact List.ne_nil_of_mem member

/--
A configuration is what the added ones are pooled into: it has their key, the merge of their stacks
now and at any later time, the most of their reaches, and is suppressed if one of them is.
-/
structure IsPoolOf
    (configuration : Configuration)
    (store : StackStore)
    (emptyIsAny : Bool)
    (added : List Configuration) :
    Prop where
  shares : ∀ one ∈ added, indexKey one = indexKey configuration
  stack :
    ∀ {later : StackStore},
      store.Evolves later →
        ((StackStore.mergeAll emptyIsAny (added.map Configuration.stack)).run later).1 =
          configuration.stack
  outerReaches : (added.map Configuration.outerReaches).max? = some configuration.outerReaches
  filterSuppressed : configuration.filterSuppressed = added.any Configuration.filterSuppressed

theorem GatheredFrom.isPoolOf
    (gathered : configuration.GatheredFrom store emptyIsAny added)
    (sound : store.Sound .univ) :
    configuration.IsPoolOf store emptyIsAny added where
  shares := gathered.shares
  stack := by
    intro later evolves
    obtain ⟨laterSound, grows⟩ := sound.of_evolves evolves
    have gatheredLater := gathered.grows sound.toWellMade grows
    refine laterSound.mergeAll_eq (by simpa using gathered.ne_nil) ?_ gatheredLater.isIn
      fun way => ?_
    · simpa using gatheredLater.areIn
    · simpa using gatheredLater.ways way
  outerReaches := by
    obtain ⟨isReached, isMost⟩ := gathered.outerReaches
    rw [List.max?_eq_some_iff]
    refine ⟨by simpa using isReached, fun reaches member => isMost ?_⟩
    simpa using member
  filterSuppressed := by
    rw [Bool.eq_iff_iff, gathered.filterSuppressed, List.any_eq_true]

/-- What is found is gathered from the added ones, of which there are none if nothing is found. -/
def Collects
    (store : StackStore)
    (emptyIsAny : Bool)
    (added : List Configuration) :
    Option Configuration → Prop
  | none => added = []
  | some found => found.GatheredFrom store emptyIsAny added

theorem Collects.grows
    {found : Option Configuration}
    (collects : Collects store emptyIsAny added found)
    (wellMade : store.WellMade)
    (grows : store.Grows after) :
    Collects after emptyIsAny added found := by
  cases found with
  | none => exact collects
  | some found => exact GatheredFrom.grows collects wellMade grows

/-- Configurations of two stores are alike but for the numbers of their stacks. -/
structure AlikeIn
    (store other : StackStore)
    (emptyIsAny : Bool)
    (one twin : Configuration) :
    Prop where
  sameKey : indexKey one = indexKey twin
  sameWays :
    ∀ way, store.Spells emptyIsAny one.stack way ↔ other.Spells emptyIsAny twin.stack way
  outerReaches : one.outerReaches = twin.outerReaches
  filterSuppressed : one.filterSuppressed = twin.filterSuppressed

/-- Where the second store has all stacks of the first one, alike configurations are the same. -/
theorem AlikeIn.eq
    (alike : AlikeIn store after emptyIsAny configuration other)
    (wellMade : store.WellMade)
    (grows : store.Grows after)
    (tidy : after.Tidy)
    (isIn : store.IsIn configuration.stack)
    (isIn' : after.IsIn other.stack) :
    configuration = other := by
  have sameStack : configuration.stack = other.stack :=
    tidy.eq_of_same_ways (grows.valid isIn) isIn' fun way =>
      (grows.spells_iff wellMade isIn).trans (alike.sameWays way)
  obtain ⟨sameKey, -, sameReaches, sameFlag⟩ := alike
  obtain ⟨state, alternative, stack, condition, outerReaches, filterSuppressed⟩ := configuration
  simp only [indexKey, Prod.mk.injEq] at sameKey
  obtain ⟨rfl, rfl, rfl⟩ := sameKey
  simp_all

/-- What is gathered from the same configurations, in one store and in another one, is alike. -/
theorem GatheredFrom.alike
    {others : List Configuration}
    (gathered : configuration.GatheredFrom store emptyIsAny added)
    (gathered' : other.GatheredFrom after emptyIsAny others)
    (permutes : added.Perm others)
    (sameKey : indexKey configuration = indexKey other)
    (stay :
      ∀ one ∈ added, ∀ way,
        store.Spells emptyIsAny one.stack way ↔ after.Spells emptyIsAny one.stack way) :
    AlikeIn store after emptyIsAny configuration other where
  sameKey := sameKey
  sameWays way := by
    rw [gathered.ways, gathered'.ways]
    refine exists_congr fun one => ?_
    rw [← permutes.mem_iff]
    exact and_congr_right fun member => stay one member way
  outerReaches := by
    refine gathered.outerReaches.unique ?_
    simp only [permutes.mem_iff]
    exact gathered'.outerReaches
  filterSuppressed := by
    rw [Bool.eq_iff_iff, gathered.filterSuppressed, gathered'.filterSuppressed]
    simp only [permutes.mem_iff]

/-- What is found under a key in two stores is alike if it is gathered from the same. -/
theorem Collects.alike
    {others : List Configuration}
    {found found' : Option Configuration}
    (collects : Collects store emptyIsAny added found)
    (collects' : Collects after emptyIsAny others found')
    (permutes : added.Perm others)
    (key : Nat × Nat × Condition)
    (hasKey : ∀ one ∈ found, indexKey one = key)
    (hasKey' : ∀ one ∈ found', indexKey one = key)
    (stay :
      ∀ one ∈ added, ∀ way,
        store.Spells emptyIsAny one.stack way ↔ after.Spells emptyIsAny one.stack way) :
    Option.Rel (AlikeIn store after emptyIsAny) found found' := by
  cases found with
  | none =>
      cases found' with
      | none => exact .none
      | some other =>
          rw [show added = [] from collects] at permutes
          exact absurd permutes.nil_eq.symm (GatheredFrom.ne_nil collects')
  | some configuration =>
      cases found' with
      | none =>
          rw [show others = [] from collects'] at permutes
          exact absurd permutes.eq_nil (GatheredFrom.ne_nil collects)
      | some other =>
          have sameKey := (hasKey _ rfl).trans (hasKey' _ rfl).symm
          exact .some (GatheredFrom.alike collects collects' permutes sameKey stay)

end Configuration

namespace ConfigurationSet

open GrammarService.Configuration

variable
  {set : ConfigurationSet}
  {store : StackStore}
  {configuration : Configuration}
  {key : Nat × Nat × Condition}

/-- Adding a configuration merges its stack with that of the one that has its key. -/
theorem IsIndexed.store_add
    (isIndexed : set.IsIndexed) :
    ((set.add configuration).run store).2 =
      (set.find? (indexKey configuration)).elim store fun twin =>
        ((StackStore.merge twin.stack configuration.stack (!set.fullContext)).run store).2 := by
  cases known : set.index[indexKey configuration]? with
  | none => rw [add_of_new known, find?, known, Option.bind_none, Option.elim_none]
  | some position =>
      obtain ⟨twin, isThere, -⟩ := Option.map_eq_some_iff.mp (isIndexed.leads_iff.mp known)
      rw [add_of_known known, find?, known, Option.bind_some, isThere, Option.elim_some,
        Array.getD_eq_getD_getElem?, isThere, Option.getD_some]

/-- A set whose index tells the truth, with a sound store that has all stacks of the set. -/
structure IsKept
    (set : ConfigurationSet)
    (store : StackStore) :
    Prop where
  isIndexed : set.IsIndexed
  sound : store.Sound .univ
  isIn : set.IsIn store

theorem IsKept.empty (fullContext : Bool) :
    (ConfigurationSet.empty fullContext).IsKept StackStore.initial where
  isIndexed := .empty fullContext
  sound := .initial _
  isIn := .empty _ fullContext

theorem IsKept.later
    {after : StackStore}
    (isKept : set.IsKept store)
    (evolves : store.Evolves after) :
    set.IsKept after :=
  ⟨isKept.isIndexed, (isKept.sound.of_evolves evolves).1,
    isKept.isIn.grows (isKept.sound.of_evolves evolves).2⟩

/-- The store evolves when a configuration is added. -/
theorem IsKept.evolves_add
    (isKept : set.IsKept store)
    (isIn : store.IsIn configuration.stack) :
    store.Evolves ((set.add configuration).run store).2 := by
  rw [isKept.isIndexed.store_add]
  cases found : set.find? (indexKey configuration) with
  | none => exact .refl
  | some twin =>
      have twinIsIn := isKept.isIn twin (isKept.isIndexed.find?_eq_some_iff.mp found).1
      exact .merge .refl twinIsIn isIn _

theorem IsKept.add
    (isKept : set.IsKept store)
    (isIn : store.IsIn configuration.stack) :
    ((set.add configuration).run store).1.IsKept ((set.add configuration).run store).2 where
  isIndexed := isKept.isIndexed.add configuration store
  sound := (isKept.sound.of_evolves (isKept.evolves_add isIn)).1
  isIn := (isKept.isIn.repeats_add isKept.sound.toWellMade isIn).valid

/-- One more configuration is gathered where its key leads. -/
theorem IsKept.collects_add
    (isKept : set.IsKept store)
    (isIn : store.IsIn configuration.stack)
    {added : List Configuration}
    (collects : Collects store (!set.fullContext) added (set.find? key)) :
    Collects ((set.add configuration).run store).2 (!set.fullContext)
      (added ++ sharing key [configuration])
      (((set.add configuration).run store).1.find? key) := by
  have grows := (isKept.sound.of_evolves (isKept.evolves_add isIn)).2
  rw [isKept.isIndexed.find?_add, sharing_singleton]
  by_cases isKey : indexKey configuration = key
  · rw [if_pos isKey, if_pos isKey, isKept.isIndexed.store_add, isKey]
    cases found : set.find? key with
    | none =>
        rw [found] at collects
        rw [show added = [] from collects]
        exact GatheredFrom.singleton isIn
    | some twin =>
        rw [found] at collects
        have hasKey := (isKept.isIndexed.find?_eq_some_iff.mp found).2
        exact GatheredFrom.pooledWith collects isKept.sound (isKey.trans hasKey.symm) isIn
  · rw [if_neg isKey, if_neg isKey, List.append_nil]
    exact collects.grows isKept.sound.toWellMade grows

end ConfigurationSet

/-- Optional values that are related are the same if related values are. -/
theorem eq_of_rel
    {α : Type}
    {relates : α → α → Prop}
    {first second : Option α}
    (related : Option.Rel relates first second)
    (same : ∀ one ∈ first, ∀ other ∈ second, relates one other → one = other) :
    first = second := by
  cases related with
  | none => rfl
  | some related => rw [same _ rfl _ rfl related]

namespace Prediction

open ConfigurationSet GrammarService.Configuration

variable
  {set : ConfigurationSet}
  {store : StackStore}
  {added permuted : List Configuration}

/-- Several configurations are gathered where their keys lead. -/
theorem collects_addAll
    (isKept : set.IsKept store)
    (areIn : ∀ configuration ∈ added, store.IsIn configuration.stack) :
    let made := addAll set store added
    made.1.IsKept made.2 ∧ store.Evolves made.2 ∧ made.1.fullContext = set.fullContext ∧
      ∀ key,
        Collects made.2 (!set.fullContext) ((set.find? key).toList ++ sharing key added)
          (made.1.find? key) := by
  induction added using List.reverseRecOn with
  | nil =>
      refine ⟨isKept, .refl, rfl, fun key => ?_⟩
      rw [show sharing key [] = [] from rfl, List.append_nil]
      cases found : set.find? key with
      | none => simp [addAll, found, Collects]
      | some configuration =>
          have member := (isKept.isIndexed.find?_eq_some_iff.mp found).1
          simpa [addAll, found, Collects] using GatheredFrom.singleton (isKept.isIn _ member)
  | append_singleton earlier last inductionHypothesis =>
      obtain ⟨earlierKept, evolves, sameReading, collects⟩ :=
        inductionHypothesis fun configuration member => areIn configuration (by simp [member])
      have lastIsIn :=
        (isKept.sound.of_evolves evolves).2.valid (areIn last (by simp))
      rw [addAll_append_singleton]
      refine ⟨earlierKept.add lastIsIn, evolves.trans (earlierKept.evolves_add lastIsIn),
        fullContext_add.trans sameReading, fun key => ?_⟩
      rw [sharing_append, ← List.append_assoc]
      rw [← sameReading] at collects ⊢
      exact earlierKept.collects_add lastIsIn (collects key)

/--
Configurations that are added in another order, at once or at a later time, come to alike ones. As
each time has a store of its own, the numbers of their stacks cannot be compared, but their ways
can.
-/
theorem alike_addAll
    (isKept : set.IsKept store)
    (areIn : ∀ configuration ∈ added, store.IsIn configuration.stack)
    (permutes : added.Perm permuted)
    {other : StackStore}
    (evolves : store.Evolves other)
    (key : Nat × Nat × Condition) :
    Option.Rel
      (AlikeIn (addAll set store added).2 (addAll set other permuted).2 (!set.fullContext))
      ((addAll set store added).1.find? key)
      ((addAll set other permuted).1.find? key) := by
  obtain ⟨madeKept, madeEvolves, -, collects⟩ := collects_addAll isKept areIn
  obtain ⟨sound, grows⟩ := isKept.sound.of_evolves evolves
  have areInOther : ∀ configuration ∈ permuted, other.IsIn configuration.stack :=
    fun configuration member =>
      grows.valid (areIn configuration (permutes.mem_iff.mpr member))
  obtain ⟨againKept, againEvolves, -, collects'⟩ :=
    collects_addAll (isKept.later evolves) areInOther
  have madeGrows := (isKept.sound.of_evolves madeEvolves).2
  have againGrows := (isKept.sound.of_evolves (evolves.trans againEvolves)).2
  refine (collects key).alike (collects' key) ((permutes.filter _).append_left _) key ?_ ?_ ?_
  · exact fun one found => (madeKept.isIndexed.find?_eq_some_iff.mp found).2
  · exact fun one found => (againKept.isIndexed.find?_eq_some_iff.mp found).2
  · intro one member way
    have isIn : store.IsIn one.stack := by
      rcases List.mem_append.mp member with isOld | isAdded
      · exact isKept.isIn one
          (isKept.isIndexed.find?_eq_some_iff.mp (Option.mem_toList.mp isOld)).1
      · exact areIn one (mem_sharing_iff.mp isAdded).1
    rw [madeGrows.spells_iff isKept.sound.toWellMade isIn,
      againGrows.spells_iff isKept.sound.toWellMade isIn]

/--
Configurations that are added in another order in the same store, which has gone on by then, make
the same set up to the order of its configurations.
-/
theorem perm_addAll
    (isKept : set.IsKept store)
    (areIn : ∀ configuration ∈ added, store.IsIn configuration.stack)
    (permutes : added.Perm permuted)
    {later : StackStore}
    (evolves : (addAll set store added).2.Evolves later) :
    (addAll set store added).1.configurations.toList.Perm
      (addAll set later permuted).1.configurations.toList := by
  obtain ⟨madeKept, madeEvolves, -, -⟩ := collects_addAll isKept areIn
  have laterEvolves := madeEvolves.trans evolves
  have areInLater : ∀ configuration ∈ permuted, later.IsIn configuration.stack :=
    fun configuration member =>
      (isKept.sound.of_evolves laterEvolves).2.valid
        (areIn configuration (permutes.mem_iff.mpr member))
  obtain ⟨againKept, againEvolves, -, -⟩ :=
    collects_addAll (isKept.later laterEvolves) areInLater
  have grows := (madeKept.sound.of_evolves (evolves.trans againEvolves)).2
  have sameFound :
      ∀ key, (addAll set store added).1.find? key = (addAll set later permuted).1.find? key := by
    intro key
    refine eq_of_rel (alike_addAll isKept areIn permutes laterEvolves key) ?_
    intro one found twin found' alike
    refine alike.eq madeKept.sound.toWellMade grows againKept.sound.toTidy ?_ ?_
    · exact madeKept.isIn one (madeKept.isIndexed.find?_eq_some_iff.mp found).1
    · exact againKept.isIn twin (againKept.isIndexed.find?_eq_some_iff.mp found').1
  refine (List.perm_ext_iff_of_nodup madeKept.isIndexed.differ.of_map
    againKept.isIndexed.differ.of_map).mpr fun configuration => ?_
  rw [Array.mem_toList_iff, Array.mem_toList_iff, againKept.isIndexed.mem_iff,
    madeKept.isIndexed.mem_iff, sameFound]

end Prediction

end GrammarService
