import GrammarService.Proofs.Prediction.Gathering

namespace GrammarService

/-!
# Histories of configuration sets

A configuration set is made by adding configurations and retaining some of them, while its store may
be used for other stacks in between. Each configuration of the set was inserted at some time, and is
what the configurations that were added under its key since then are pooled into. Configurations
stand in the order in which they were inserted.
-/

namespace ConfigurationSet

open StackStore (Evolves)

/-- What is done to a configuration set, or to its store on behalf of others. -/
inductive Call where
  | add (configuration : Configuration)
  | retain (keeps : Configuration → Bool)
  | push (below : StackId) (returnState : Nat)
  | merge (first second : StackId) (emptyIsAny : Bool)

namespace Call

/-- What a call makes of a set and its store. -/
def perform : Call → ConfigurationSet × StackStore → ConfigurationSet × StackStore
  | .add configuration, (set, store) => (set.add configuration).run store
  | .retain keeps, (set, store) => (set.retain keeps, store)
  | .push below returnState, (set, store) =>
      (set, ((StackStore.push below returnState).run store).2)
  | .merge first second emptyIsAny, (set, store) =>
      (set, ((StackStore.merge first second emptyIsAny).run store).2)

/-- A call is about stacks of the store. -/
def IsFit (store : StackStore) : Call → Prop
  | .add configuration => store.IsIn configuration.stack
  | .retain _ => True
  | .push below _ => store.IsIn below
  | .merge first second _ => store.IsIn first ∧ store.IsIn second

instance (store : StackStore) : (call : Call) → Decidable (call.IsFit store)
  | .add configuration => inferInstanceAs (Decidable (configuration.stack < store.nodes.size))
  | .retain _ => inferInstanceAs (Decidable True)
  | .push below _ => inferInstanceAs (Decidable (below < store.nodes.size))
  | .merge first second _ =>
      inferInstanceAs (Decidable (first < store.nodes.size ∧ second < store.nodes.size))

/-- The configuration that a call adds, if it adds one. -/
def added? : Call → Option Configuration
  | .add configuration => some configuration
  | _ => none

end Call

/-- The set and the store that calls make, beginning with nothing. -/
def performAll
    (fullContext : Bool)
    (calls : List Call) :
    ConfigurationSet × StackStore :=
  calls.foldl (fun made call => call.perform made) (empty fullContext, StackStore.initial)

/-- Each call is about stacks that are in the store by then. -/
def AreFit
    (fullContext : Bool)
    (calls : List Call) :
    Prop :=
  ∀ (time : Nat) (call : Call),
    calls[time]? = some call → call.IsFit (performAll fullContext (calls.take time)).2

/-- The states, alternatives and conditions in a set, in order. -/
def indexKeys (set : ConfigurationSet) : List (Nat × Nat × Condition) :=
  set.configurations.toList.map indexKey

/-- A call added a key that was not in the set, and that has been in it ever since. -/
structure IsInsertedAt
    (fullContext : Bool)
    (calls : List Call)
    (key : Nat × Nat × Condition)
    (time : Nat) :
    Prop where
  adds : ∃ configuration, calls[time]? = some (.add configuration) ∧ indexKey configuration = key
  absent : key ∉ (performAll fullContext (calls.take time)).1.indexKeys
  present :
    ∀ later,
      time < later → later ≤ calls.length →
        key ∈ (performAll fullContext (calls.take later)).1.indexKeys

/-- The configurations that were added under a key since some time. -/
def addedSince
    (calls : List Call)
    (time : Nat)
    (key : Nat × Nat × Condition) :
    List Configuration :=
  Configuration.sharing key ((calls.drop time).filterMap Call.added?)

variable
  {set : ConfigurationSet}
  {store : StackStore}
  {fullContext : Bool}
  {calls : List Call}
  {call : Call}
  {configuration : Configuration}
  {key : Nat × Nat × Condition}
  {time : Nat}

theorem mem_indexKeys_iff :
    key ∈ set.indexKeys ↔ ∃ configuration ∈ set.configurations, indexKey configuration = key := by
  simp [indexKeys]

theorem performAll_append_singleton :
    performAll fullContext (calls ++ [call]) = call.perform (performAll fullContext calls) := by
  rw [performAll, List.foldl_append]
  rfl

theorem addedSince_append
    (inTime : time ≤ calls.length) :
    addedSince (calls ++ [call]) time key =
      addedSince calls time key ++ Configuration.sharing key call.added?.toList := by
  rw [addedSince, addedSince, ← Configuration.sharing_append,
    List.drop_append_of_le_length inTime, List.filterMap_append]
  cases call <;> rfl

theorem AreFit.of_append
    (fit : AreFit fullContext (calls ++ [call])) :
    AreFit fullContext calls ∧ call.IsFit (performAll fullContext calls).2 := by
  constructor
  · intro time earlier isThere
    have inTime := (List.getElem?_eq_some_iff.mp isThere).1
    have isFit := fit time earlier (by rwa [List.getElem?_append_left inTime])
    rwa [List.take_append_of_le_length inTime.le] at isFit
  · simpa using fit calls.length call (by simp)

namespace IsInsertedAt

theorem time_lt
    (inserted : IsInsertedAt fullContext calls key time) :
    time < calls.length := by
  obtain ⟨_, isThere, -⟩ := inserted.adds
  exact (List.getElem?_eq_some_iff.mp isThere).1

/-- A key that stays was inserted when it was inserted before. -/
theorem append
    (inserted : IsInsertedAt fullContext calls key time)
    (stays : key ∈ (performAll fullContext (calls ++ [call])).1.indexKeys) :
    IsInsertedAt fullContext (calls ++ [call]) key time := by
  have inTime := inserted.time_lt
  refine ⟨?_, ?_, fun later isLater inBounds => ?_⟩
  · rw [List.getElem?_append_left inTime]
    exact inserted.adds
  · rw [List.take_append_of_le_length inTime.le]
    exact inserted.absent
  · rw [List.length_append, List.length_singleton] at inBounds
    rcases Nat.lt_or_ge calls.length later with isEnd | isBefore
    · rwa [List.take_of_length_le (by simpa using isEnd)]
    · rw [List.take_append_of_le_length isBefore]
      exact inserted.present later isLater isBefore

/-- A key that was there before was not inserted by the last call. -/
theorem of_append
    (inserted : IsInsertedAt fullContext (calls ++ [call]) key time)
    (wasThere : key ∈ (performAll fullContext calls).1.indexKeys) :
    IsInsertedAt fullContext calls key time := by
  have inTime : time < calls.length := by
    refine lt_of_le_of_ne (by simpa [Nat.lt_succ_iff] using inserted.time_lt) fun isLast => ?_
    have absent := inserted.absent
    rw [isLast, List.take_left] at absent
    exact absent wasThere
  refine ⟨?_, ?_, fun later isLater inBounds => ?_⟩
  · have adds := inserted.adds
    rwa [List.getElem?_append_left inTime] at adds
  · have absent := inserted.absent
    rwa [List.take_append_of_le_length inTime.le] at absent
  · have present := inserted.present later isLater (by simp; omega)
    rwa [List.take_append_of_le_length inBounds] at present

/-- A key that was not there before was inserted by the last call. -/
theorem eq_length_of_append
    (inserted : IsInsertedAt fullContext (calls ++ [call]) key time)
    (wasAbsent : key ∉ (performAll fullContext calls).1.indexKeys) :
    time = calls.length := by
  refine le_antisymm (by simpa [Nat.lt_succ_iff] using inserted.time_lt) ?_
  refine not_lt.mp fun before => ?_
  have present := inserted.present calls.length before (by simp)
  rw [List.take_left] at present
  exact wasAbsent present

/-- A new key is inserted when it is added. -/
theorem last
    (new : indexKey configuration ∉ (performAll fullContext calls).1.indexKeys)
    (stays :
      indexKey configuration ∈
        (performAll fullContext (calls ++ [.add configuration])).1.indexKeys) :
    IsInsertedAt fullContext (calls ++ [.add configuration]) (indexKey configuration)
      calls.length := by
  refine ⟨⟨configuration, by simp, rfl⟩, by rwa [List.take_left], fun later isLater inBounds => ?_⟩
  rwa [List.take_of_length_le (by simpa using isLater)]

end IsInsertedAt

/-- A configuration that is added to the one of its key leaves the keys as they are. -/
theorem indexKeys_add_of_known
    (isIndexed : set.IsIndexed)
    (known : indexKey configuration ∈ set.indexKeys) :
    ((set.add configuration).run store).1.indexKeys = set.indexKeys := by
  obtain ⟨twin, member, sameKey⟩ := mem_indexKeys_iff.mp known
  obtain ⟨position, isThere⟩ := Array.getElem?_of_mem member
  have leads : set.index[indexKey configuration]? = some position :=
    isIndexed.leads_iff.mpr (by rw [keyAt?, isThere, Option.map_some, sameKey])
  refine List.ext_getElem? fun place => ?_
  have same := @keyAt?_add_of_known set store configuration position leads place
  simpa [keyAt?, indexKeys] using same

/-- The key of any other configuration comes last. -/
theorem indexKeys_add_of_new
    (isIndexed : set.IsIndexed)
    (new : indexKey configuration ∉ set.indexKeys) :
    ((set.add configuration).run store).1.indexKeys =
      set.indexKeys ++ [indexKey configuration] := by
  have nowhere : set.index[indexKey configuration]? = none := by
    refine Option.eq_none_iff_forall_not_mem.mpr fun position leads => new ?_
    obtain ⟨twin, isThere, sameKey⟩ := Option.map_eq_some_iff.mp (isIndexed.leads_iff.mp leads)
    exact mem_indexKeys_iff.mpr ⟨twin, Array.mem_of_getElem? isThere, sameKey⟩
  rw [add_of_new nowhere]
  simp [indexKeys]

/-- A call drops keys, or appends one that was not there. -/
theorem indexKeys_perform_cases
    (isIndexed : set.IsIndexed)
    (store : StackStore)
    (call : Call) :
    (call.perform (set, store)).1.indexKeys.Sublist set.indexKeys ∨
      ∃ configuration, call = .add configuration ∧ indexKey configuration ∉ set.indexKeys ∧
        (call.perform (set, store)).1.indexKeys =
          set.indexKeys ++ [indexKey configuration] := by
  cases call with
  | add configuration =>
      by_cases known : indexKey configuration ∈ set.indexKeys
      · exact .inl (indexKeys_add_of_known isIndexed known ▸ List.Sublist.refl _)
      · exact .inr ⟨configuration, rfl, known, indexKeys_add_of_new isIndexed known⟩
  | retain keeps =>
      refine .inl ?_
      simp only [Call.perform, indexKeys, ConfigurationSet.retain, Array.toList_filter]
      exact List.filter_sublist.map indexKey
  | push => exact .inl (List.Sublist.refl _)
  | merge => exact .inl (List.Sublist.refl _)

/-- Keys stand in the order in which they were inserted. -/
def InOrder
    (fullContext : Bool)
    (calls : List Call)
    (keys : List (Nat × Nat × Condition)) :
    Prop :=
  keys.Pairwise fun earlier later =>
    ∀ time time',
      IsInsertedAt fullContext calls earlier time →
        IsInsertedAt fullContext calls later time' → time < time'

/-- Configurations are gathered from what was added under their keys since they were inserted. -/
def AreGathered
    (fullContext : Bool)
    (calls : List Call)
    (set : ConfigurationSet)
    (store : StackStore) :
    Prop :=
  ∀ configuration ∈ set.configurations,
    ∃ time,
      IsInsertedAt fullContext calls (indexKey configuration) time ∧
        configuration.GatheredFrom store (!fullContext)
          (addedSince calls time (indexKey configuration))

/-- What calls have made of a set can be told from the calls. -/
structure IsToldFrom
    (fullContext : Bool)
    (calls : List Call)
    (set : ConfigurationSet)
    (store : StackStore) :
    Prop extends IsKept set store where
  reading : set.fullContext = fullContext
  inOrder : InOrder fullContext calls set.indexKeys
  gathered : AreGathered fullContext calls set store

/-- A call that is fit keeps the index true and the store sound. -/
theorem IsKept.perform
    (isKept : set.IsKept store)
    (isFit : call.IsFit store) :
    (call.perform (set, store)).1.IsKept (call.perform (set, store)).2 ∧
      store.Evolves (call.perform (set, store)).2 ∧
        (call.perform (set, store)).1.fullContext = set.fullContext := by
  cases call with
  | add configuration =>
      exact ⟨isKept.add isFit, isKept.evolves_add isFit, fullContext_add⟩
  | retain keeps =>
      exact ⟨⟨isKept.isIndexed.retain keeps, isKept.sound, isKept.isIn.retain keeps⟩, .refl, rfl⟩
  | push below returnState =>
      have evolves := Evolves.push .refl isFit returnState
      exact ⟨isKept.later evolves, evolves, rfl⟩
  | merge first second emptyIsAny =>
      have evolves := Evolves.merge .refl isFit.1 isFit.2 emptyIsAny
      exact ⟨isKept.later evolves, evolves, rfl⟩

/-- Keys that stay were inserted before any key that a call adds. -/
theorem InOrder.append
    (inOrder : InOrder fullContext calls (performAll fullContext calls).1.indexKeys)
    (isIndexed : (performAll fullContext calls).1.IsIndexed)
    (call : Call) :
    InOrder fullContext (calls ++ [call])
      (performAll fullContext (calls ++ [call])).1.indexKeys := by
  have stillOrdered :
      InOrder fullContext (calls ++ [call]) (performAll fullContext calls).1.indexKeys :=
    List.Pairwise.imp_of_mem
      (fun isOld isOld' ordered time time' inserted inserted' =>
        ordered time time' (inserted.of_append isOld) (inserted'.of_append isOld'))
      inOrder
  rw [performAll_append_singleton]
  rcases indexKeys_perform_cases isIndexed (performAll fullContext calls).2 call with
    drops | ⟨configuration, -, new, appends⟩
  · exact stillOrdered.sublist drops
  · rw [appends, InOrder, List.pairwise_append]
    refine ⟨stillOrdered, List.pairwise_singleton .., ?_⟩
    intro earlier isOld last isLast time time' inserted inserted'
    rw [List.mem_singleton.mp isLast] at inserted'
    rw [inserted'.eq_length_of_append new]
    exact (inserted.of_append isOld).time_lt

namespace IsToldFrom

variable (told :
  IsToldFrom fullContext calls (performAll fullContext calls).1 (performAll fullContext calls).2)

include told

/-- What a call leaves in the set is gathered as before, if the call adds nothing. -/
theorem gathered_of_kept
    (addsNothing : call.added? = none)
    (kept :
      ∀ configuration ∈ (performAll fullContext (calls ++ [call])).1.configurations,
        configuration ∈ (performAll fullContext calls).1.configurations)
    (grows :
      (performAll fullContext calls).2.Grows (performAll fullContext (calls ++ [call])).2) :
    AreGathered fullContext (calls ++ [call]) (performAll fullContext (calls ++ [call])).1
      (performAll fullContext (calls ++ [call])).2 := by
  intro configuration member
  obtain ⟨time, inserted, gathered⟩ := told.gathered configuration (kept configuration member)
  refine ⟨time, inserted.append (mem_indexKeys_iff.mpr ⟨configuration, member, rfl⟩), ?_⟩
  rw [addedSince_append inserted.time_lt.le, addsNothing]
  simpa [Configuration.sharing] using gathered.grows told.sound.toWellMade grows

/-- A configuration that is added is gathered with those that were added under its key before. -/
theorem gathered_add
    (isFit : (performAll fullContext calls).2.IsIn configuration.stack) :
    AreGathered fullContext (calls ++ [.add configuration])
      (performAll fullContext (calls ++ [.add configuration])).1
      (performAll fullContext (calls ++ [.add configuration])).2 := by
  intro present member
  have stays := mem_indexKeys_iff.mpr ⟨present, member, rfl⟩
  have isKept := told.toIsKept
  rw [performAll_append_singleton] at member ⊢
  have isFound := ((isKept.add isFit).isIndexed.mem_iff).mp member
  have collectsLater :=
    fun {added : List Configuration} =>
      @IsKept.collects_add _ _ configuration (indexKey present) isKept isFit added
  rw [isFound, told.reading] at collectsLater
  cases found : (performAll fullContext calls).1.find? (indexKey present) with
  | some twin =>
      -- The key was inserted earlier, and goes on gathering.
      obtain ⟨isOld, sameKey⟩ := isKept.isIndexed.find?_eq_some_iff.mp found
      obtain ⟨time, inserted, gathered⟩ := told.gathered twin isOld
      rw [sameKey] at inserted gathered
      refine ⟨time, inserted.append stays, ?_⟩
      rw [addedSince_append inserted.time_lt.le]
      exact collectsLater (found ▸ gathered)
  | none =>
      -- Only the added configuration itself can have brought a key that was not there.
      have gathered := @collectsLater [] (found ▸ rfl)
      rw [List.nil_append] at gathered
      obtain ⟨one, isOne, -⟩ := (Configuration.GatheredFrom.outerReaches gathered).1
      obtain ⟨isLast, isKey⟩ := Configuration.mem_sharing_iff.mp isOne
      rw [List.mem_singleton.mp isLast] at isKey
      have isNew : indexKey present ∉ (performAll fullContext calls).1.indexKeys := by
        intro isOld
        obtain ⟨twin, isTwin, sameKey⟩ := mem_indexKeys_iff.mp isOld
        rw [isKept.isIndexed.find?_eq_some_iff.mpr ⟨isTwin, sameKey⟩] at found
        cases found
      have nothingEarlier : addedSince calls calls.length (indexKey present) = [] := by
        simp [addedSince, Configuration.sharing]
      rw [← isKey] at isNew stays
      refine ⟨calls.length, isKey ▸ IsInsertedAt.last isNew stays, ?_⟩
      rw [addedSince_append le_rfl, nothingEarlier, List.nil_append]
      exact gathered

/-- One more call, and the set can still be told from the calls. -/
theorem append
    (isFit : call.IsFit (performAll fullContext calls).2) :
    IsToldFrom fullContext (calls ++ [call]) (performAll fullContext (calls ++ [call])).1
      (performAll fullContext (calls ++ [call])).2 := by
  obtain ⟨isKept, evolves, sameReading⟩ := told.toIsKept.perform isFit
  have grows := (told.sound.of_evolves evolves).2
  have inOrder := told.inOrder.append told.isIndexed call
  rw [← performAll_append_singleton] at isKept evolves sameReading grows
  refine ⟨isKept, sameReading.trans told.reading, inOrder, ?_⟩
  cases call with
  | add configuration => exact told.gathered_add isFit
  | retain keeps =>
      refine told.gathered_of_kept rfl (fun configuration member => ?_) grows
      rw [performAll_append_singleton] at member
      exact (mem_retain.mp member).1
  | push =>
      refine told.gathered_of_kept rfl (fun configuration member => ?_) grows
      rwa [performAll_append_singleton] at member
  | merge =>
      refine told.gathered_of_kept rfl (fun configuration member => ?_) grows
      rwa [performAll_append_singleton] at member

end IsToldFrom

/-- Whatever is done to a set and its store can be told from the calls. -/
theorem isToldFrom
    (fit : AreFit fullContext calls) :
    IsToldFrom fullContext calls (performAll fullContext calls).1
      (performAll fullContext calls).2 := by
  induction calls using List.reverseRecOn with
  | nil =>
      exact ⟨.empty fullContext, rfl, .nil, by simp [AreGathered, performAll, empty]⟩
  | append_singleton calls call inductionHypothesis =>
      obtain ⟨earlierFit, isFit⟩ := fit.of_append
      exact (inductionHypothesis earlierFit).append isFit

/--
A set has one configuration for each key, found by its index and standing in the order of insertion,
and each is what the configurations added under its key since its insertion are pooled into.
-/
structure IsCanonical
    (fullContext : Bool)
    (calls : List Call)
    (set : ConfigurationSet)
    (store : StackStore) :
    Prop where
  differ : set.indexKeys.Nodup
  leads_iff :
    ∀ {key : Nat × Nat × Condition} {position : Nat},
      set.index[key]? = some position ↔ set.keyAt? position = some key
  inOrder : InOrder fullContext calls set.indexKeys
  pools :
    ∀ configuration ∈ set.configurations,
      ∃ time,
        IsInsertedAt fullContext calls (indexKey configuration) time ∧
          configuration.IsPoolOf store (!fullContext)
            (addedSince calls time (indexKey configuration))

/--
Configuration sets stay canonical, whatever is added, retained or done to the store in between.
Configurations that are added in another order come to alike ones, each time in a store of its own,
and to the same ones in the same store.
-/
theorem stays_canonical
    (fit : AreFit fullContext calls)
    {added permuted : List Configuration}
    (areIn :
      ∀ configuration ∈ added, (performAll fullContext calls).2.IsIn configuration.stack)
    (permutes : added.Perm permuted) :
    let known := performAll fullContext calls
    let made := Prediction.addAll known.1 known.2 added
    IsCanonical fullContext calls known.1 known.2 ∧
      (∀ other, known.2.Evolves other →
        let again := Prediction.addAll known.1 other permuted
        ∀ key,
          Option.Rel (Configuration.AlikeIn made.2 again.2 (!fullContext)) (made.1.find? key)
            (again.1.find? key)) ∧
        ∀ later, made.2.Evolves later →
          let again := Prediction.addAll known.1 later permuted
          made.1.configurations.toList.Perm again.1.configurations.toList := by
  intro known made
  have told : IsToldFrom fullContext calls known.1 known.2 := isToldFrom fit
  refine ⟨⟨told.isIndexed.differ, told.isIndexed.leads_iff, told.inOrder, ?_⟩, ?_, ?_⟩
  · intro configuration member
    obtain ⟨time, inserted, gathered⟩ := told.gathered configuration member
    exact ⟨time, inserted, gathered.isPoolOf told.sound⟩
  · intro other evolves again key
    have alike := Prediction.alike_addAll told.toIsKept areIn permutes evolves key
    rwa [told.reading] at alike
  · intro later evolves
    exact Prediction.perm_addAll told.toIsKept areIn permutes evolves

namespace Reinsertion

/-- A configuration of the first alternative. -/
def one (state : Nat) (stack : StackId) : Configuration :=
  .start state 1 stack

/-- A configuration is pooled, dropped and inserted again behind another one. -/
def history : List Call :=
  [.push 0 5, .push 0 7, .add (one 4 1), .add (one 6 1), .add (one 4 2), .merge 0 1 false,
    .retain fun configuration => configuration.state != 4, .add (one 6 2), .add (one 4 2)]

theorem areFit_history : AreFit false history := by
  intro time call isThere
  have inTime : time < 9 := (List.getElem?_eq_some_iff.mp isThere).1
  interval_cases time <;> cases isThere <;> exact of_decide_eq_true (by cbv)

/-- Three more configurations, of which the second one is pooled with one of the history. -/
def more : List Configuration :=
  [one 7 1, one 4 1, one 7 2]

theorem history_stays_canonical :
    let known := performAll false history
    let made := Prediction.addAll known.1 known.2 more
    let again := Prediction.addAll known.1 made.2 more.reverse
    IsCanonical false history known.1 known.2 ∧
      made.1.configurations.toList.Perm again.1.configurations.toList := by
  have areIn :
      ∀ configuration ∈ more, (performAll false history).2.IsIn configuration.stack := by
    have size : (performAll false history).2.nodes.size = 5 := by cbv
    intro configuration member
    show configuration.stack < _
    rw [size]
    fin_cases member <;> decide
  have canonical := stays_canonical areFit_history areIn more.reverse_perm.symm
  exact ⟨canonical.1, canonical.2.2 _ .refl⟩

example :
    (performAll false history).1.configurations.toList = [one 6 3, one 4 2] := by cbv

end Reinsertion

end ConfigurationSet

end GrammarService
