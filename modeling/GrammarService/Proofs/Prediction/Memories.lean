import GrammarService.Proofs.Prediction.Automata
import GrammarService.Proofs.Prediction.Coverage
import GrammarService.Proofs.Prediction.Reachable
import GrammarService.Proofs.Prediction.Stages

namespace GrammarService

/-!
# What predictions remember is well made

Whatever was predicted before, the stacks in memory are well made, and the configuration sets of
the automata refer to stacks that are there.
-/

namespace StackStore

variable {store : StackStore}

/-- Some return states were pushed onto a stack, the last of them innermost. -/
structure Pushes
    (store : StackStore)
    (stack : StackId)
    (returnStates : List Nat)
    (made : StackId × StackStore) :
    Prop where
  wellMade : made.2.WellMade
  grows : store.Grows made.2
  valid : made.1 < made.2.nodes.size
  holds_iff :
    ∀ {returns : List Nat},
      made.2.Holds false made.1 returns ↔
        ∃ outer, returns = returnStates.reverse ++ outer ∧ store.Holds false stack outer

/-- Pushing return states one by one pushes them all. -/
theorem pushes_foldlM
    (returnStates : List Nat)
    {stack : StackId}
    (wellMade : store.WellMade)
    (valid : stack < store.nodes.size) :
    store.Pushes stack returnStates ((returnStates.foldlM push stack).run store) := by
  induction returnStates generalizing store stack with
  | nil =>
      have isRun : (([] : List Nat).foldlM push stack).run store = (stack, store) := rfl
      rw [isRun]
      exact ⟨wellMade, .refl store, valid, by simp⟩
  | cons follow returnStates inductionHypothesis =>
      have interns := interns_push wellMade valid follow
      have isRun :
          ((follow :: returnStates).foldlM push stack).run store =
            (returnStates.foldlM push ((push stack follow).run store).1).run
              ((push stack follow).run store).2 :=
        rfl
      rw [isRun]
      have rest := inductionHypothesis interns.wellMade interns.valid
      refine ⟨rest.wellMade, interns.grows.trans rest.grows, rest.valid, ?_⟩
      intro returns
      have below_iff :
          ∀ {outer : List Nat},
            ((push stack follow).run store).2.Holds false ((push stack follow).run store).1
                outer ↔
              ∃ below, outer = follow :: below ∧ store.Holds false stack below := by
        intro outer
        rw [Prediction.holds_of_spelledEntries interns.wellMade interns.spelled]
        simp only [interns.grows.holds_iff wellMade valid]
      rw [rest.holds_iff]
      constructor
      · rintro ⟨outer, rfl, holds⟩
        obtain ⟨below, rfl, held⟩ := below_iff.mp holds
        exact ⟨below, by simp, held⟩
      · rintro ⟨below, rfl, held⟩
        exact ⟨follow :: below, by simp, below_iff.mpr ⟨below, rfl, held⟩⟩

/-- The stack of some return states stands for them and nothing else. -/
theorem pushes_ofReturnStates
    (wellMade : store.WellMade)
    (returnStates : List Nat) :
    store.Pushes StackId.empty returnStates ((ofReturnStates returnStates).run store) :=
  pushes_foldlM returnStates wellMade wellMade.empty_valid

end StackStore

namespace ConfigurationSet

variable {set : ConfigurationSet} {store : StackStore}

/-- An index that is built position by position tells the truth. -/
theorem getElem?_of_foldl_insert
    (configurations : List Configuration)
    (offset : Nat)
    (index : Std.HashMap (Nat × Nat × Condition) Nat)
    {key : Nat × Nat × Condition}
    {position : Nat}
    (indexed :
      ((configurations.zipIdx offset).foldl
        (fun index (configuration, position) =>
          index.insert (indexKey configuration) position)
        index)[key]? = some position) :
    index[key]? = some position ∨
      ∃ configuration,
        configurations[position - offset]? = some configuration ∧ offset ≤ position ∧
          indexKey configuration = key := by
  induction configurations generalizing offset index with
  | nil => exact .inl indexed
  | cons head tail inductionHypothesis =>
      rw [List.zipIdx_cons, List.foldl_cons] at indexed
      rcases inductionHypothesis _ _ indexed with inserted | ⟨configuration, isThere, later, isKey⟩
      · rw [Std.HashMap.getElem?_insert] at inserted
        split at inserted
        · rename_i isKey
          cases inserted
          exact .inr ⟨head, by simp, le_refl _, eq_of_beq isKey⟩
        · exact .inl inserted
      · refine .inr ⟨configuration, ?_, by omega, isKey⟩
        rw [show position - offset = position - (offset + 1) + 1 by omega]
        exact isThere

/-- Some of the configurations of a set can be in a set themselves. -/
theorem Fits.retain
    (fits : set.Fits store)
    (keeps : Configuration → Bool) :
    (set.retain keeps).Fits store where
  wellMade := fits.wellMade
  each configuration member := fits.each configuration (mem_retain.mp member).1
  indexed := by
    intro key position indexed
    rcases getElem?_of_foldl_insert _ 0 ∅ indexed with isEmpty | ⟨configuration, isThere, _, isKey⟩
    · simp at isEmpty
    · rw [Nat.sub_zero, Array.getElem?_toList] at isThere
      exact ⟨configuration, isThere, isKey⟩
  unguarded := fits.unguarded

end ConfigurationSet

namespace Prediction

/-- A set was made from what is in a store, which has grown with it. -/
structure Makes
    (store : StackStore)
    (fullContext : Bool)
    (result : ConfigurationSet × StackStore) :
    Prop where
  fits : result.1.Fits result.2
  grows : store.Grows result.2
  fullContext : result.1.fullContext = fullContext

section Steps

variable
  {setting : Setting}
  {fullContext : Bool}
  {set : ConfigurationSet}
  {store : StackStore}
  (shaped : setting.network.RuleShaped)
  (coherent : setting.network.Coherent)
  (plain : setting.network.Plain)

/-- Adding configurations to a set makes a set. -/
theorem makes_addAll
    (fits : set.Fits store)
    {added : List Configuration}
    (fitting : ∀ configuration ∈ added, configuration.Fits store set.fullContext) :
    Makes store set.fullContext (addAll set store added) :=
  let gains := fits.gains_addAll added fitting
  ⟨gains.fits, gains.grows, gains.fullContext⟩

include shaped coherent plain

/-- The first set of a decision is made from a stack that is there. -/
theorem makes_startSet
    {stack : StackId}
    (wellMade : store.WellMade)
    (valid : stack < store.nodes.size)
    (bottomless : fullContext = false → store.Bottomless stack)
    (decisionState : Nat) :
    Makes store fullContext (startSet setting decisionState stack fullContext store) := by
  have fitting :
      ∀ origin ∈ outsets setting.network decisionState stack, origin.Fits store fullContext := by
    intro origin member
    obtain ⟨⟨edge, index⟩, _, rfl⟩ := List.mem_map.mp member
    exact ⟨valid, bottomless, rfl⟩
  have follows :=
    @follows_each ⟨store, ConfigurationSet.empty fullContext, ∅⟩ false setting true shaped coherent
      plain (outsets setting.network decisionState stack)
      (ConfigurationSet.Fits.empty wellMade fullContext) fitting
  rw [startSet_eq]
  exact ⟨follows.fits, follows.grows, follows.fullContext⟩

/-- Following the configurations of a set makes a set. -/
theorem makes_followAll
    (fits : set.Fits store)
    (endIsFree : Bool) :
    Makes store set.fullContext (followAll setting endIsFree set store) := by
  have follows :=
    @follows_each ⟨store, ConfigurationSet.empty set.fullContext, ∅⟩ endIsFree setting false shaped
      coherent plain set.configurations.toList
      (ConfigurationSet.Fits.empty fits.wellMade set.fullContext)
      fun origin member => fits.each origin (Array.mem_toList_iff.mp member)
  rw [followAll_eq]
  exact ⟨follows.fits, follows.grows, follows.fullContext⟩

/-- The set that a token leads to is made from the set before. -/
theorem makes_reachSet?
    (fits : set.Fits store)
    (symbol : Int) :
    (reachSet? setting set symbol set.fullContext store).2.WellMade ∧
      store.Grows (reachSet? setting set symbol set.fullContext store).2 ∧
        ∀ {reached : ConfigurationSet},
          (reachSet? setting set symbol set.fullContext store).1 = some reached →
            Makes store set.fullContext
              (reached, (reachSet? setting set symbol set.fullContext store).2) := by
  have movedFitting :
      ∀ configuration ∈ moveOver setting.network set symbol,
        configuration.Fits store set.fullContext := by
    intro behind member
    obtain ⟨configuration, isOld, edge, _, _, _, rfl⟩ := mem_moveOver_iff.mp member
    have isFit := fits.each configuration isOld
    exact ⟨isFit.valid, isFit.bottomless, isFit.unguarded⟩
  have moved :=
    makes_addAll (ConfigurationSet.Fits.empty fits.wellMade set.fullContext) movedFitting
  have followed :
      Makes store set.fullContext (followedSet setting set symbol set.fullContext store) := by
    unfold followedSet
    dsimp only
    split
    · exact moved
    · have further := makes_followAll shaped coherent plain moved.fits (symbol == endOfInput)
      exact ⟨further.fits, moved.grows.trans further.grows,
        further.fullContext.trans moved.fullContext⟩
  rw [reachSet?_eq]
  generalize followedSet setting set symbol set.fullContext store = result at followed
  have keptFits : (keptSet setting.network symbol result.1).Fits result.2 := by
    unfold keptSet
    split
    · exact followed.fits.retain _
    · exact followed.fits
  have keptFull : (keptSet setting.network symbol result.1).fullContext = set.fullContext := by
    unfold keptSet
    split <;> exact followed.fullContext
  have finishedFitting :
      ∀ configuration ∈ finishedConfigurations setting.network set symbol set.fullContext,
        configuration.Fits result.2 (keptSet setting.network symbol result.1).fullContext := by
    intro configuration member
    have isOld : configuration ∈ set.configurations := by
      unfold finishedConfigurations at member
      split at member
      · exact Array.mem_toList_iff.mp (List.mem_of_mem_filter member)
      · cases member
    rw [keptFull]
    exact (fits.each configuration isOld).grows fits.wellMade followed.grows
  have finished := makes_addAll keptFits finishedFitting
  rw [keptFull] at finished
  dsimp only
  split
  · exact ⟨finished.fits.wellMade, followed.grows.trans finished.grows, fun isSome => by
      simp only [Option.ite_none_left_eq_some, Option.some.injEq] at isSome
      rw [← isSome.2]
      exact ⟨finished.fits, followed.grows.trans finished.grows, finished.fullContext⟩⟩
  · exact ⟨followed.fits.wellMade, followed.grows, fun isSome => by
      simp only [Option.ite_none_left_eq_some, Option.some.injEq] at isSome
      rw [← isSome.2]
      exact ⟨keptFits, followed.grows, keptFull⟩⟩

end Steps

/-- Simulating tokens keeps the stacks of a set well made. -/
theorem wellMade_simulateTokens
    {σ : Type}
    [TokenSource σ]
    {setting : Setting}
    (shaped : setting.network.RuleShaped)
    (coherent : setting.network.Coherent)
    (plain : setting.network.Plain)
    (limit : Nat)
    {stage : ContextStage σ}
    (fits : stage.set.Fits stage.store)
    (isFull : stage.set.fullContext = true) :
    let after :=
      (simulateTokens setting limit stage.set stage.index stage.store stage.tokens).2.1
    after.WellMade ∧ stage.store.Grows after := by
  induction limit generalizing stage with
  | zero => exact ⟨fits.wellMade, .refl _⟩
  | succ limit inductionHypothesis =>
      rw [ContextStage.simulateTokens_succ]
      obtain ⟨wellMade, grows, makes⟩ :=
        makes_reachSet? shaped coherent plain fits stage.symbol
      rw [isFull] at wellMade grows makes
      unfold ContextStage.step
      cases leads : reachSet? setting stage.set stage.symbol true stage.store with
      | mk reached store =>
          rw [leads] at wellMade grows makes
          cases reached with
          | none =>
              dsimp only
              cases finishedAlternative? setting stage.set store <;> exact ⟨wellMade, grows⟩
          | some reached =>
              dsimp only
              cases reached.uniqueAlternative?.or (commonLowest? reached.alternativesByPlace) with
              | some alternative => exact ⟨wellMade, grows⟩
              | none =>
                  have made := makes rfl
                  have rest :=
                    @inductionHypothesis (stage.advance reached store) made.fits made.fullContext
                  exact ⟨rest.1, made.grows.trans rest.2⟩

/-- A prediction in context keeps the stacks well made. -/
theorem wellMade_predictInContext
    {σ : Type}
    [TokenSource σ]
    {setting : Setting}
    (shaped : setting.network.RuleShaped)
    (coherent : setting.network.Coherent)
    (plain : setting.network.Plain)
    (decisionState : Nat)
    (returnStates : List Nat)
    {store : StackStore}
    (wellMade : store.WellMade)
    (tokens : TokenStream σ)
    (start : Nat) :
    let after :=
      (predictInContext setting decisionState returnStates store tokens start).2.1
    after.WellMade ∧ store.Grows after := by
  have pushes := StackStore.pushes_ofReturnStates wellMade returnStates
  have begun :=
    @makes_startSet setting true _ shaped coherent plain _ pushes.wellMade pushes.valid
      (fun isWild => by cases isWild) decisionState
  have simulated :=
    wellMade_simulateTokens shaped coherent plain (lookaheadBound tokens)
      (show
        (ContextStage.first setting decisionState returnStates store tokens start).set.Fits
          (ContextStage.first setting decisionState returnStates store tokens start).store
        from begun.fits)
      begun.fullContext
  exact ⟨simulated.1, (pushes.grows.trans begun.grows).trans simulated.2⟩

end Prediction

/-- The sets of an automaton without precedences refer to stacks that are there. -/
structure Automaton.Fits
    (automaton : Automaton)
    (store : StackStore) :
    Prop where
  byPrecedence : automaton.byPrecedence = false
  each :
    ∀ {number : Nat} {state : AutomatonState},
      automaton.states[number]? = some state →
        state.configurations.Fits store ∧ state.configurations.fullContext = false

namespace Automaton.Fits

variable {automaton : Automaton} {store after : StackStore}

theorem grows
    (fits : automaton.Fits store)
    (wellMade : after.WellMade)
    (grows : store.Grows after) :
    automaton.Fits after where
  byPrecedence := fits.byPrecedence
  each present :=
    ⟨(fits.each present).1.grows wellMade grows, (fits.each present).2⟩

theorem addState
    (fits : automaton.Fits store)
    {set : ConfigurationSet}
    (setFits : set.Fits store)
    (isWild : set.fullContext = false)
    (verdict : Option Verdict) :
    (automaton.addState set verdict).2.Fits store := by
  cases known : automaton.index[set.keys]? with
  | some number =>
      rw [addState_of_known known]
      exact fits
  | none =>
      rw [addState_of_new known]
      refine ⟨fits.byPrecedence, ?_⟩
      intro number state present
      rw [Array.getElem?_push] at present
      split at present
      · cases present
        exact ⟨setFits, isWild⟩
      · exact fits.each present

theorem setStart
    (fits : automaton.Fits store)
    (precedence : Int)
    (number : Nat) :
    (automaton.setStart precedence number).Fits store where
  byPrecedence := by
    unfold Automaton.setStart
    split <;> exact fits.byPrecedence
  each present := fits.each (by simpa using present)

theorem setSuccessor
    (fits : automaton.Fits store)
    (number : Nat)
    (symbol : Int)
    (successor : Successor) :
    (automaton.setSuccessor number symbol successor).Fits store where
  byPrecedence := fits.byPrecedence
  each := by
    intro other state present
    rw [getElem?_states_setSuccessor, Option.map_eq_some_iff] at present
    obtain ⟨before, wasPresent, rfl⟩ := present
    have isFit := fits.each wasPresent
    split <;> exact isFit

/-- The configurations of any state of an automaton refer to stacks that are there. -/
theorem configurationsOf
    (fits : automaton.Fits store)
    (wellMade : store.WellMade)
    (number : Nat) :
    (automaton.configurationsOf number).Fits store ∧
      (automaton.configurationsOf number).fullContext = false := by
  unfold Automaton.configurationsOf
  split
  · rename_i present
    exact fits.each present
  · exact ⟨.empty wellMade false, rfl⟩

end Automaton.Fits

namespace Prediction

/-- A memory is well made, and its stacks are those of an earlier store and more. -/
structure Memory.Fits
    (earlier : StackStore)
    (memory : Memory) :
    Prop where
  wellMade : memory.store.WellMade
  grows : earlier.Grows memory.store
  automaton : memory.automaton.Fits memory.store

section Remembered

variable
  {setting : Setting}
  {earlier : StackStore}
  (shaped : setting.network.RuleShaped)
  (coherent : setting.network.Coherent)
  (plain : setting.network.Plain)

include shaped coherent plain

/-- Computing the first state of a prediction keeps a memory well made. -/
theorem Memory.Fits.startState
    {memory : Memory}
    (fits : memory.Fits earlier)
    (isNew : memory.automaton.start? setting.precedence = none) :
    (Prediction.startState setting memory).2.Fits earlier := by
  have made :=
    @makes_startSet setting false memory.store shaped coherent plain StackId.empty fits.wellMade
      fits.wellMade.empty_valid (fun _ => .empty) memory.automaton.decisionState
  unfold Prediction.startState
  simp only [isNew, fits.automaton.byPrecedence, Bool.false_eq_true, ↓reduceIte]
  exact {
    wellMade := made.fits.wellMade
    grows := fits.grows.trans made.grows
    automaton :=
      ((fits.automaton.grows made.fits.wellMade made.grows).addState made.fits made.fullContext
        none).setStart _ _ }

/-- Computing a successor keeps a memory well made. -/
theorem Memory.Fits.computeSuccessor
    {memory : Memory}
    (fits : memory.Fits earlier)
    (number : Nat)
    (symbol : Int) :
    (Prediction.computeSuccessor setting memory number symbol).2.Fits earlier := by
  obtain ⟨setFits, isWild⟩ := fits.automaton.configurationsOf fits.wellMade number
  obtain ⟨wellMade, grows, makes⟩ := makes_reachSet? shaped coherent plain setFits symbol
  rw [isWild] at wellMade grows makes
  unfold Prediction.computeSuccessor
  cases leads :
    reachSet? setting (memory.automaton.configurationsOf number) symbol false memory.store with
  | mk reached store =>
      rw [leads] at wellMade grows makes
      have automatonFits := fits.automaton.grows wellMade grows
      cases reached with
      | none =>
          exact ⟨wellMade, fits.grows.trans grows, automatonFits.setSuccessor _ _ _⟩
      | some reached =>
          have made := makes rfl
          exact ⟨wellMade, fits.grows.trans grows,
            (automatonFits.addState made.fits made.fullContext _).setSuccessor _ _ _⟩

/-- A remembered prediction keeps a memory well made. -/
theorem Memory.Fits.predictRemembered
    {σ : Type}
    [TokenSource σ]
    {memory : Memory}
    (fits : memory.Fits earlier)
    (tokens : TokenStream σ)
    (start : Nat) :
    (Prediction.predictRemembered setting memory tokens start).2.1.Fits earlier :=
  predictRemembered_induction (fun memory => memory.Fits earlier)
    (fun _ fits isNew => fits.startState shaped coherent plain isNew)
    (fun _ number symbol fits _ => fits.computeSuccessor shaped coherent plain number symbol)
    fits tokens start

end Remembered

end Prediction

namespace PredictionCache

/-- The stacks of a cache are well made, and its automata refer to stacks that are there. -/
structure Fits (cache : PredictionCache) : Prop where
  wellMade : cache.store.WellMade
  each :
    ∀ {decision : Nat} {automaton : Automaton},
      cache.automata[decision]? = some automaton → automaton.Fits cache.store

/-- Whatever was predicted before, the cache is well made. -/
theorem Reachable.fits
    {network : Network}
    (shaped : network.RuleShaped)
    (coherent : network.Coherent)
    (plain : network.Plain)
    {cache : PredictionCache}
    (reachable : cache.Reachable network) :
    cache.Fits := by
  induction reachable with
  | initial =>
      refine ⟨.initial, ?_⟩
      intro decision automaton present
      simp only [PredictionCache.initial, Array.getElem?_map, Option.map_eq_some_iff] at present
      obtain ⟨decisionState, _, rfl⟩ := present
      refine ⟨?_, by simp [Automaton.initial]⟩
      simp [Automaton.initial, plain.precedenceDecision_eq coherent]
  | @remembered σ _ cache predicted decision start precedence tokens _ wasPresent
      inductionHypothesis =>
      have before : Prediction.Memory.Fits cache.store ⟨cache.store, predicted⟩ :=
        ⟨inductionHypothesis.wellMade, .refl _, inductionHypothesis.each wasPresent⟩
      have after :=
        @Prediction.Memory.Fits.predictRemembered
          (Parser.settingOf network predicted precedence) _ shaped coherent plain σ _ _ before
          tokens start
      refine ⟨after.wellMade, ?_⟩
      intro other automaton present
      simp only [remember, Array.getElem?_setIfInBounds] at present
      split at present
      · split at present
        · cases present
          exact after.automaton
        · cases present
      · exact (inductionHypothesis.each present).grows after.wellMade after.grows
  | @inContext σ _ cache predicted decision start precedence returnStates tokens _ _
      inductionHypothesis =>
      obtain ⟨wellMade, grows⟩ :=
        @Prediction.wellMade_predictInContext σ _
          (Parser.settingOf network predicted precedence) shaped coherent plain
          predicted.decisionState returnStates cache.store inductionHypothesis.wellMade tokens start
      exact ⟨wellMade, fun present => (inductionHypothesis.each present).grows wellMade grows⟩

end PredictionCache

end GrammarService
