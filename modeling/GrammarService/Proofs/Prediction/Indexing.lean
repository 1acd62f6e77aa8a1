import GrammarService.Proofs.Prediction.Finished
import GrammarService.Proofs.Prediction.Precedences

namespace GrammarService

/-!
# Configuration sets have one configuration for each key

However a configuration set is made, its index leads from each state, alternative and condition to
the position of the one configuration that has them. So of the configurations that are added to an
empty set, those that share state, alternative and condition are pooled into one, and pooling them
in any later store comes to the same.
-/

namespace Configuration

/-- A configuration that takes in another one, their stacks being merged. -/
def pooledWith
    (store : StackStore)
    (emptyIsAny : Bool)
    (present added : Configuration) :
    Configuration :=
  present.joinedWith added ((StackStore.merge present.stack added.stack emptyIsAny).run store).1

/-- What configurations are pooled into: the first one, if there is one, takes in the others. -/
def pool?
    (store : StackStore)
    (emptyIsAny : Bool) :
    List Configuration → Option Configuration
  | [] => none
  | first :: others => some (others.foldl (pooledWith store emptyIsAny) first)

/-- The configurations of a state, alternative and condition. -/
def sharing
    (key : Nat × Nat × Condition)
    (configurations : List Configuration) :
    List Configuration :=
  configurations.filter fun configuration => ConfigurationSet.indexKey configuration = key

variable
  {store : StackStore}
  {emptyIsAny : Bool}
  {key : Nat × Nat × Condition}
  {configuration : Configuration}

theorem mem_sharing_iff
    {configurations : List Configuration} :
    configuration ∈ sharing key configurations ↔
      configuration ∈ configurations ∧ ConfigurationSet.indexKey configuration = key := by
  simp [sharing]

theorem sharing_append
    (earlier later : List Configuration) :
    sharing key (earlier ++ later) = sharing key earlier ++ sharing key later :=
  List.filter_append ..

theorem sharing_filter
    (keeps : Configuration → Bool)
    (configurations : List Configuration) :
    sharing key (configurations.filter keeps) = (sharing key configurations).filter keeps :=
  List.filter_comm ..

theorem sharing_singleton :
    sharing key [configuration] =
      if ConfigurationSet.indexKey configuration = key then [configuration] else [] := by
  simp [sharing, List.filter_singleton]

/-- A configuration shares its key with no other one, if all keys are different. -/
theorem sharing_eq_singleton
    {configurations : List Configuration}
    (differ : (configurations.map ConfigurationSet.indexKey).Nodup)
    (member : configuration ∈ configurations) :
    sharing (ConfigurationSet.indexKey configuration) configurations = [configuration] := by
  induction configurations with
  | nil => cases member
  | cons head tail inductionHypothesis =>
      obtain ⟨isNew, differ⟩ := List.nodup_cons.mp differ
      rcases List.mem_cons.mp member with rfl | isLater
      · have noOther : sharing (ConfigurationSet.indexKey configuration) tail = [] := by
          refine List.filter_eq_nil_iff.mpr fun other isOther sameKey => isNew ?_
          exact List.mem_map.mpr ⟨other, isOther, of_decide_eq_true sameKey⟩
        rw [← List.singleton_append, sharing_append, sharing_singleton, if_pos rfl, noOther]
        rfl
      · have isOther : ConfigurationSet.indexKey head ≠ ConfigurationSet.indexKey configuration :=
          fun sameKey => isNew (sameKey ▸ List.mem_map_of_mem isLater)
        rw [← List.singleton_append, sharing_append, sharing_singleton, if_neg isOther,
          inductionHypothesis differ isLater]
        rfl

/-- The last configuration is taken in by what those before it are pooled into. -/
theorem pool?_append_singleton
    (earlier : List Configuration)
    (configuration : Configuration) :
    pool? store emptyIsAny (earlier ++ [configuration]) =
      some ((pool? store emptyIsAny earlier).elim configuration
        (·.pooledWith store emptyIsAny configuration)) := by
  cases earlier <;> simp [pool?]

/-- An optional configuration on its own stays as it is. -/
@[simp] theorem pool?_toList
    (configuration? : Option Configuration) :
    pool? store emptyIsAny configuration?.toList = configuration? := by
  cases configuration? <;> rfl

end Configuration

namespace ConfigurationSet

variable
  {set : ConfigurationSet}
  {store : StackStore}
  {key : Nat × Nat × Condition}
  {configuration : Configuration}

/-- The state, alternative and condition at a position, if there is one. -/
def keyAt?
    (set : ConfigurationSet)
    (position : Nat) :
    Option (Nat × Nat × Condition) :=
  set.configurations[position]?.map indexKey

/-- The index leads to just the positions at which a state, alternative and condition are. -/
structure IsIndexed (set : ConfigurationSet) : Prop where
  leads_iff :
    ∀ {key : Nat × Nat × Condition} {position : Nat},
      set.index[key]? = some position ↔ set.keyAt? position = some key

/-- The configuration that the index leads to. -/
def find?
    (set : ConfigurationSet)
    (key : Nat × Nat × Condition) :
    Option Configuration :=
  set.index[key]?.bind fun position => set.configurations[position]?

/-- Sets of configurations that are made by adding and retaining some. -/
inductive IsMade : ConfigurationSet → Prop where
  | empty
      (fullContext : Bool) :
      IsMade (empty fullContext)
  | add
      {set : ConfigurationSet}
      (isMade : IsMade set)
      (configuration : Configuration)
      (store : StackStore) :
      IsMade ((set.add configuration).run store).1
  | retain
      {set : ConfigurationSet}
      (isMade : IsMade set)
      (keeps : Configuration → Bool) :
      IsMade (set.retain keeps)

/-- A configuration that is joined to its twin has the key of the twin. -/
theorem keyAt?_add_of_known
    {position : Nat}
    (known : set.index[indexKey configuration]? = some position)
    (place : Nat) :
    ((set.add configuration).run store).1.keyAt? place = set.keyAt? place := by
  rw [add_of_known known]
  simp only [keyAt?, Array.getElem?_modify]
  split
  · rw [Option.map_map]
    rfl
  · rfl

/-- A configuration without a twin comes last. -/
theorem keyAt?_add_of_new
    (new : set.index[indexKey configuration]? = none)
    (place : Nat) :
    ((set.add configuration).run store).1.keyAt? place =
      if place = set.configurations.size then
        some (indexKey configuration)
      else
        set.keyAt? place := by
  rw [add_of_new new]
  simp only [keyAt?, Array.getElem?_push]
  split <;> rfl

theorem keyAt?_size : set.keyAt? set.configurations.size = none := by
  simp [keyAt?]

/-- An index that is built position by position leads to all positions, if all keys are different. -/
theorem getElem?_foldl_insert_iff
    {configurations : List Configuration}
    (differ : (configurations.map indexKey).Nodup)
    {position : Nat} :
    (configurations.zipIdx.foldl
        (fun index (configuration, position) => index.insert (indexKey configuration) position)
        (∅ : Std.HashMap (Nat × Nat × Condition) Nat))[key]? = some position ↔
      configurations[position]?.map indexKey = some key := by
  induction configurations using List.reverseRecOn with
  | nil => simp
  | append_singleton earlier last inductionHypothesis =>
      rw [List.map_append, List.nodup_append] at differ
      obtain ⟨earlierDiffer, -, apart⟩ := differ
      simp only [List.zipIdx_append, List.zipIdx_singleton, List.foldl_append, List.foldl_cons,
        List.foldl_nil, zero_add, Std.HashMap.getElem?_insert, beq_iff_eq]
      have isLast : (earlier ++ [last])[earlier.length]? = some last := List.getElem?_concat_length
      by_cases isKey : indexKey last = key
      · rw [if_pos isKey, Option.some.injEq]
        constructor
        · rintro rfl
          rw [isLast, Option.map_some, isKey]
        · intro isThere
          obtain ⟨configuration, isThere, sameKey⟩ := Option.map_eq_some_iff.mp isThere
          rw [List.getElem?_append] at isThere
          split at isThere
          · have member := List.mem_map_of_mem (f := indexKey) (List.mem_of_getElem? isThere)
            exact absurd (sameKey.trans isKey.symm) (apart _ member _ (List.mem_singleton_self _))
          · rename_i isLater
            have inBounds := (List.getElem?_eq_some_iff.mp isThere).1
            simp only [List.length_singleton] at inBounds
            omega
      · rw [if_neg isKey, inductionHypothesis earlierDiffer, List.getElem?_append]
        split
        · rfl
        · rename_i isLater
          rw [List.getElem?_eq_none (Nat.le_of_not_lt isLater)]
          by_cases atEnd : position - earlier.length = 0 <;> simp [atEnd, isKey]

namespace IsIndexed

theorem empty (fullContext : Bool) : (ConfigurationSet.empty fullContext).IsIndexed where
  leads_iff := by simp [ConfigurationSet.empty, keyAt?]

/-- No two configurations have the same key. -/
theorem differ
    (isIndexed : set.IsIndexed) :
    (set.configurations.toList.map indexKey).Nodup := by
  rw [List.nodup_iff_getElem?_ne_getElem?]
  intro position place before inBounds same
  have isKey := List.getElem?_eq_getElem inBounds
  rw [isKey] at same
  rw [List.getElem?_map, Array.getElem?_toList] at same isKey
  have known := isIndexed.leads_iff.mpr isKey
  rw [isIndexed.leads_iff.mpr same] at known
  exact absurd (Option.some.inj known) (Nat.ne_of_lt before)

/-- Adding a configuration keeps the index true. -/
theorem add
    (isIndexed : set.IsIndexed)
    (configuration : Configuration)
    (store : StackStore) :
    ((set.add configuration).run store).1.IsIndexed := by
  refine ⟨fun {key position} => ?_⟩
  cases known : set.index[indexKey configuration]? with
  | some twin =>
      rw [keyAt?_add_of_known known, ← isIndexed.leads_iff, add_of_known known]
  | none =>
      rw [keyAt?_add_of_new known, add_of_new known, Std.HashMap.getElem?_insert]
      by_cases isKey : indexKey configuration = key
      · subst isKey
        have isNowhere : set.keyAt? position ≠ some (indexKey configuration) := by
          rw [Ne, ← isIndexed.leads_iff, known]
          exact Option.some_ne_none position ∘ Eq.symm
        by_cases isLast : position = set.configurations.size
        · simp [isLast]
        · simp [isLast, isNowhere, Ne.symm isLast]
      · simp only [beq_iff_eq, isKey, ↓reduceIte]
        by_cases isLast : position = set.configurations.size
        · rw [isLast, if_pos rfl, isIndexed.leads_iff, keyAt?_size]
          simp [isKey]
        · rw [if_neg isLast, isIndexed.leads_iff]

/-- An index of some of the configurations is made anew. -/
theorem retain
    (isIndexed : set.IsIndexed)
    (keeps : Configuration → Bool) :
    (set.retain keeps).IsIndexed := by
  refine ⟨fun {key position} => ?_⟩
  have differ :
      ((set.configurations.filter keeps).toList.map indexKey).Nodup := by
    rw [Array.toList_filter]
    exact isIndexed.differ.sublist (List.filter_sublist.map indexKey)
  rw [keyAt?, ← Array.getElem?_toList]
  exact getElem?_foldl_insert_iff differ

/-- The index leads to the configuration that shares the key. -/
theorem sharing_eq
    (isIndexed : set.IsIndexed)
    (key : Nat × Nat × Condition) :
    Configuration.sharing key set.configurations.toList = (set.find? key).toList := by
  cases known : set.index[key]? with
  | none =>
      rw [find?, known, Option.bind_none, Option.toList_none, Configuration.sharing,
        List.filter_eq_nil_iff]
      intro configuration member sameKey
      obtain ⟨position, isThere⟩ := Array.getElem?_of_mem (Array.mem_toList_iff.mp member)
      have isKey : set.keyAt? position = some key := by
        rw [keyAt?, isThere, Option.map_some, of_decide_eq_true sameKey]
      rw [isIndexed.leads_iff.mpr isKey] at known
      cases known
  | some position =>
      obtain ⟨configuration, isThere, rfl⟩ := Option.map_eq_some_iff.mp (isIndexed.leads_iff.mp known)
      rw [find?, known, Option.bind_some, isThere, Option.toList_some]
      exact Configuration.sharing_eq_singleton isIndexed.differ
        (Array.mem_toList_iff.mpr (Array.mem_of_getElem? isThere))

/-- The index leads to the configuration of the set that has the key. -/
theorem find?_eq_some_iff
    (isIndexed : set.IsIndexed) :
    set.find? key = some configuration ↔
      configuration ∈ set.configurations ∧ indexKey configuration = key := by
  rw [← Option.mem_toList, ← isIndexed.sharing_eq, Configuration.mem_sharing_iff,
    Array.mem_toList_iff]

/-- The configurations of a set are those that the index leads to. -/
theorem mem_iff
    (isIndexed : set.IsIndexed) :
    configuration ∈ set.configurations ↔
      set.find? (indexKey configuration) = some configuration := by
  rw [isIndexed.find?_eq_some_iff, and_iff_left rfl]

/-- A configuration is pooled with the one that has its key, if there is one. -/
theorem find?_add
    (isIndexed : set.IsIndexed)
    (configuration : Configuration)
    (store : StackStore)
    (key : Nat × Nat × Condition) :
    ((set.add configuration).run store).1.find? key =
      if indexKey configuration = key then
        some ((set.find? key).elim configuration
          (·.pooledWith store (!set.fullContext) configuration))
      else
        set.find? key := by
  cases known : set.index[indexKey configuration]? with
  | none =>
      rw [add_of_new known]
      simp only [find?, Std.HashMap.getElem?_insert, beq_iff_eq]
      by_cases isKey : indexKey configuration = key
      · simp [← isKey, known]
      · rw [if_neg isKey, if_neg isKey]
        cases isElsewhere : set.index[key]? with
        | none => rfl
        | some position =>
            obtain ⟨other, isThere, -⟩ := Option.map_eq_some_iff.mp (isIndexed.leads_iff.mp isElsewhere)
            rw [Option.bind_some, Option.bind_some, isThere]
            exact Automaton.getElem?_push_of_some isThere
  | some position =>
      obtain ⟨twin, isThere, sameKey⟩ := Option.map_eq_some_iff.mp (isIndexed.leads_iff.mp known)
      rw [add_of_known known]
      simp only [find?]
      by_cases isKey : indexKey configuration = key
      · rw [← isKey, known, if_pos rfl]
        simp [isThere, Array.getElem?_modify, Array.getD_eq_getD_getElem?,
          Configuration.pooledWith]
      · rw [if_neg isKey]
        cases isElsewhere : set.index[key]? with
        | none => rfl
        | some place =>
            have apart : position ≠ place := by
              rintro rfl
              have same := isIndexed.leads_iff.mp isElsewhere
              rw [isIndexed.leads_iff.mp known] at same
              exact isKey (Option.some.inj same)
            rw [Option.bind_some, Option.bind_some, Array.getElem?_modify, if_neg apart]

/-- Pooling a configuration with the one that has its key comes to the same in any later store. -/
theorem find?_add_later
    (isIndexed : set.IsIndexed)
    (wellMade : store.WellMade)
    (isIn : set.IsIn store)
    (configurationIsIn : store.IsIn configuration.stack)
    {later : StackStore}
    (extension : ((set.add configuration).run store).2.Extends later)
    (key : Nat × Nat × Condition) :
    ((set.add configuration).run store).1.find? key =
      if indexKey configuration = key then
        some ((set.find? key).elim configuration
          (·.pooledWith later (!set.fullContext) configuration))
      else
        set.find? key := by
  rw [isIndexed.find?_add]
  by_cases isKey : indexKey configuration = key
  · rw [if_pos isKey, if_pos isKey, ← isKey]
    cases known : set.index[indexKey configuration]? with
    | none => simp [find?, known]
    | some position =>
        obtain ⟨twin, isThere, -⟩ := Option.map_eq_some_iff.mp (isIndexed.leads_iff.mp known)
        have twinIsIn := isIn twin (Array.mem_of_getElem? isThere)
        have repeats :=
          StackStore.repeats_merge wellMade twinIsIn configurationIsIn (!set.fullContext)
        rw [add_of_known known, Array.getD_eq_getD_getElem?, isThere] at extension
        simp only [find?, known, Option.bind_some, isThere, Option.elim_some,
          Configuration.pooledWith, repeats.again extension]
  · rw [if_neg isKey, if_neg isKey]

end IsIndexed

/-- The index of a set tells the truth, however the set is made. -/
theorem IsMade.isIndexed
    (isMade : set.IsMade) :
    set.IsIndexed := by
  induction isMade with
  | empty fullContext => exact IsIndexed.empty fullContext
  | add _ configuration store inductionHypothesis =>
      exact inductionHypothesis.add configuration store
  | retain _ keeps inductionHypothesis => exact inductionHypothesis.retain keeps

end ConfigurationSet

namespace Prediction

open ConfigurationSet

/-- Configurations are added in turn. -/
theorem addAll_append_singleton
    (set : ConfigurationSet)
    (store : StackStore)
    (added : List Configuration)
    (configuration : Configuration) :
    addAll set store (added ++ [configuration]) =
      ((addAll set store added).1.add configuration).run (addAll set store added).2 := by
  simp [addAll, List.foldl_append]

/-- Adding several configurations keeps the index true. -/
theorem isIndexed_addAll
    {set : ConfigurationSet}
    (isIndexed : set.IsIndexed)
    (store : StackStore)
    (added : List Configuration) :
    (addAll set store added).1.IsIndexed := by
  induction added using List.reverseRecOn with
  | nil => exact isIndexed
  | append_singleton earlier last inductionHypothesis =>
      rw [addAll_append_singleton]
      exact inductionHypothesis.add last _

/--
Of the configurations added to an empty set, those that share a key are pooled. Pooling them in any
later store comes to the same.
-/
theorem find?_addAll_empty
    {store : StackStore}
    (wellMade : store.WellMade)
    (fullContext : Bool)
    (added : List Configuration)
    (isIn : ∀ configuration ∈ added, store.IsIn configuration.stack)
    {later : StackStore}
    (extension : (addAll (empty fullContext) store added).2.Extends later)
    (key : Nat × Nat × Condition) :
    (addAll (empty fullContext) store added).1.find? key =
      Configuration.pool? later (!fullContext) (Configuration.sharing key added) := by
  induction added using List.reverseRecOn generalizing key with
  | nil => simp [addAll, find?, empty, Configuration.pool?, Configuration.sharing]
  | append_singleton earlier last inductionHypothesis =>
      have isInEarlier :
          ∀ configuration ∈ earlier, store.IsIn configuration.stack :=
        fun configuration member => isIn configuration (List.mem_append_left _ member)
      have earlierRepeats :=
        repeats_addAll earlier (.empty store fullContext) wellMade isInEarlier
      have lastIsIn := earlierRepeats.extension.valid (isIn last (by simp))
      have isIndexed := isIndexed_addAll (.empty fullContext) store earlier
      have isWild := fullContext_addAll (empty fullContext) store earlier
      have lastRepeats := earlierRepeats.valid.repeats_add earlierRepeats.wellMade lastIsIn
      rw [addAll_append_singleton] at extension ⊢
      rw [isIndexed.find?_add_later earlierRepeats.wellMade earlierRepeats.valid lastIsIn extension,
        isWild, inductionHypothesis isInEarlier (lastRepeats.extension.trans extension),
        Configuration.sharing_append, Configuration.sharing_singleton]
      split
      · rw [Configuration.pool?_append_singleton]
        rfl
      · rw [List.append_nil]

section Following

variable
  {property : ConfigurationSet → Prop}
  (adds :
    ∀ (set : ConfigurationSet) (configuration : Configuration) (store : StackStore),
      property set → property ((set.add configuration).run store).1)
  {setting : Setting}
  {endIsFree : Bool}
  {limit : Nat}

include adds

/-- What adding a configuration keeps, following the edges of one keeps if going on behind does. -/
theorem found_followEdges
    (follows :
      ∀ (visit : Visit) (search : Search),
        property search.found → property (follow setting endIsFree limit visit search).found)
    (visit : Visit)
    {search : Search}
    (has : property search.found) :
    property (followEdges setting endIsFree limit visit search).found := by
  refine List.foldlRecOn _ _ (motive := fun search : Search => property search.found) ?_
    fun search has visit _ => follows visit search has
  rw [expand_edgesToFollow]
  unfold keptFirst
  split
  · exact has
  · exact adds _ _ _ has

/-- What adding a configuration keeps, following free edges keeps. -/
theorem found_follow
    (visit : Visit)
    {search : Search}
    (has : property search.found) :
    property (follow setting endIsFree limit visit search).found := by
  induction limit generalizing visit search with
  | zero => exact has
  | succ limit inductionHypothesis =>
      have follows :
          ∀ (visit : Visit) (search : Search),
            property search.found → property (follow setting endIsFree limit visit search).found :=
        fun visit search has => inductionHypothesis visit has
      have marked : property (search.mark visit).found := by
        rw [found_mark]
        exact has
      rw [follow_succ_entries]
      split
      · exact has
      · split
        · exact found_followEdges adds follows visit marked
        · split
          · exact adds _ _ _ marked
          · refine List.foldlRecOn _ _ (motive := fun search : Search => property search.found)
              marked fun search has entry _ => ?_
            unfold followEntry
            split
            · exact follows _ _ has
            · split
              · exact adds _ _ _ has
              · exact found_followEdges adds follows visit has

end Following

/-- The first set of a decision is made by adding configurations. -/
theorem isMade_startSet
    (setting : Setting)
    (decisionState : Nat)
    (stack : StackId)
    (fullContext : Bool)
    (store : StackStore) :
    (startSet setting decisionState stack fullContext store).1.IsMade := by
  rw [startSet_eq]
  refine List.foldlRecOn _ _ (motive := fun search : Search => search.found.IsMade)
    (.empty fullContext) fun search isMade configuration _ => ?_
  exact found_follow (fun _ configuration store isMade => isMade.add configuration store) _ isMade

end Prediction

end GrammarService
