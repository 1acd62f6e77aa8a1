import GrammarService.Proofs.Prediction.Remembering
import GrammarService.Proofs.Prediction.Settling

namespace GrammarService

/-!
# What predictions choose between

A prediction gives one of the alternatives of its decision. Nothing else is ever simulated, and so
nothing else is remembered.
-/

/-- The number, counted from 1, of an edge of the decision. -/
def Network.IsAlternative
    (network : Network)
    (decisionState alternative : Nat) :
    Prop :=
  1 ≤ alternative ∧ alternative ≤ (network.state decisionState).edges.length

namespace Prediction

variable {property : Nat → Prop}

/-- An outcome gives an alternative only if it has the property. -/
def Outcome.Only
    (property : Nat → Prop)
    (outcome : Outcome) :
    Prop :=
  ∀ alternative, outcome = .predicted alternative → property alternative

/-- An ascending list gets an alternative inserted, and nothing else. -/
theorem mem_insertAlternative_iff
    {added alternative : Nat}
    {alternatives : List Nat} :
    alternative ∈ ConfigurationSet.insertAlternative added alternatives ↔
      alternative = added ∨ alternative ∈ alternatives := by
  induction alternatives with
  | nil => simp [ConfigurationSet.insertAlternative]
  | cons head tail inductionHypothesis =>
      unfold ConfigurationSet.insertAlternative
      split
      · exact List.mem_cons
      · split
        · rename_i same
          simp [same]
        · simp only [List.mem_cons, inductionHypothesis]
          tauto

section Sets

variable {set : ConfigurationSet}

/-- The alternatives of a set are those of its configurations. -/
theorem mem_alternativesOf_iff
    {alternative : Nat} :
    alternative ∈ alternativesOf set ↔ set.HasAlternative alternative := by
  have inserted :
      ∀ (configurations : List Configuration) (alternatives : List Nat),
        alternative ∈
            configurations.foldl
              (fun alternatives configuration =>
                ConfigurationSet.insertAlternative configuration.alternative alternatives)
              alternatives ↔
          alternative ∈ alternatives ∨
            ∃ configuration ∈ configurations, configuration.alternative = alternative := by
    intro configurations
    induction configurations with
    | nil => simp
    | cons head tail inductionHypothesis =>
        intro alternatives
        simp only [List.foldl_cons, inductionHypothesis, mem_insertAlternative_iff,
          List.exists_mem_cons_iff]
        tauto
  rw [alternativesOf, ← Array.foldl_toList, inserted]
  simp [ConfigurationSet.HasAlternative]

/-- The alternative that all configurations share is that of one of them. -/
theorem hasAlternative_of_uniqueAlternative?
    {alternative : Nat}
    (unique : set.uniqueAlternative? = some alternative) :
    set.HasAlternative alternative := by
  unfold ConfigurationSet.uniqueAlternative? at unique
  cases isFirst : set.configurations[0]? with
  | none => simp [isFirst] at unique
  | some first =>
      simp only [isFirst, Option.ite_none_right_eq_some, Option.some.injEq] at unique
      exact ⟨first, Array.mem_of_getElem? isFirst, unique.2⟩

/-- The alternatives of the groups are those of the configurations. -/
theorem hasAlternative_of_mem_alternativesByPlace
    {alternative : Nat}
    {group : List Nat}
    (isGroup : group ∈ set.alternativesByPlace)
    (member : alternative ∈ group) :
    set.HasAlternative alternative := by
  have inserted :
      ∀ (configuration : Configuration) (groups : List ((Nat × StackId) × List Nat)),
        (∃ group ∈ ConfigurationSet.insertIntoGroup configuration groups,
          alternative ∈ group.2) →
          alternative = configuration.alternative ∨ ∃ group ∈ groups, alternative ∈ group.2 := by
    intro configuration groups
    induction groups with
    | nil => simp [ConfigurationSet.insertIntoGroup]
    | cons head tail inductionHypothesis =>
        obtain ⟨place, alternatives⟩ := head
        unfold ConfigurationSet.insertIntoGroup
        split
        · simp only [List.exists_mem_cons_iff, mem_insertAlternative_iff]
          tauto
        · simp only [List.exists_mem_cons_iff]
          rintro (isHere | isBehind)
          · exact .inr (.inl isHere)
          · exact (inductionHypothesis isBehind).imp_right .inr
  have grouped :
      ∀ (configurations : List Configuration) (groups : List ((Nat × StackId) × List Nat)),
        (∃ group ∈
            configurations.foldl
              (fun groups configuration =>
                ConfigurationSet.insertIntoGroup configuration groups) groups,
          alternative ∈ group.2) →
          (∃ group ∈ groups, alternative ∈ group.2) ∨
            ∃ configuration ∈ configurations, configuration.alternative = alternative := by
    intro configurations
    induction configurations with
    | nil => exact fun _ => Or.inl
    | cons head tail inductionHypothesis =>
        intro groups present
        rcases inductionHypothesis _ present with isThere | isBehind
        · rcases inserted head groups isThere with isHead | isOld
          · exact .inr ⟨head, List.mem_cons_self, isHead.symm⟩
          · exact .inl isOld
        · obtain ⟨configuration, isMember, isAlternative⟩ := isBehind
          exact .inr ⟨configuration, List.mem_cons_of_mem _ isMember, isAlternative⟩
  rw [ConfigurationSet.alternativesByPlace, ← Array.foldl_toList] at isGroup
  obtain ⟨found, isFound, rfl⟩ := List.mem_map.mp isGroup
  rcases grouped _ [] ⟨found, isFound, member⟩ with isThere | ⟨configuration, isMember, same⟩
  · simp at isThere
  · exact ⟨configuration, Array.mem_toList_iff.mp isMember, same⟩

/-- The lowest alternative of all groups is that of a configuration. -/
theorem hasAlternative_of_commonLowest?
    {alternative : Nat}
    (common : commonLowest? set.alternativesByPlace = some alternative) :
    set.HasAlternative alternative := by
  unfold commonLowest? at common
  split at common
  · cases common
  · rename_i first others isFirst
    simp only [Option.ite_none_right_eq_some, Option.some.injEq] at common
    have isHead : first ∈ set.alternativesByPlace.filterMap List.head? := by
      rw [isFirst]
      exact List.mem_cons_self
    obtain ⟨group, isGroup, isHead⟩ := List.mem_filterMap.mp isHead
    rw [common.2] at isHead
    exact hasAlternative_of_mem_alternativesByPlace isGroup (List.mem_of_mem_head? isHead)

/-- The alternative to fall back on is that of a configuration. -/
theorem hasAlternative_of_finishedAlternative?
    {setting : Setting}
    {store : StackStore}
    {alternative : Nat}
    (finished : finishedAlternative? setting set store = some alternative) :
    set.HasAlternative alternative := by
  have lowest :
      ∀ {configurations : List Configuration},
        (∀ configuration ∈ configurations, configuration ∈ set.configurations) →
          lowestAlternative? configurations = some alternative →
            set.HasAlternative alternative := by
    intro configurations areThere isLowest
    obtain ⟨configuration, member, isAlternative⟩ :=
      List.mem_map.mp (List.min?_mem isLowest)
    exact ⟨configuration, areThere configuration member, isAlternative⟩
  have areThere :
      ∀ (test : Configuration → Bool),
        ∀ configuration ∈
            (set.configurations.toList.filter (hasLeftRule setting.network store)).filter test,
          configuration ∈ set.configurations := by
    intro test configuration member
    exact Array.mem_toList_iff.mp (List.mem_filter.mp (List.mem_filter.mp member).1).1
  simp only [finishedAlternative?, List.partition_eq_filter_filter, Option.or_eq_some_iff]
    at finished
  rcases finished with isHolding | ⟨-, isFailing⟩
  · exact lowest (areThere _) isHolding
  · exact lowest (areThere _) isFailing

/-- What has the property of all alternatives of a set has that of any of them. -/
theorem only_of_hasAlternative
    (only : set.Only property)
    {alternative : Nat}
    (has : set.HasAlternative alternative) :
    property alternative := by
  obtain ⟨configuration, member, rfl⟩ := has
  exact only.each configuration member

end Sets

section Reaching

variable {setting : Setting}

/-- The first configurations of a decision are of its alternatives. -/
theorem only_startSet
    (decisionState : Nat)
    (stack : StackId)
    (fullContext : Bool)
    (store : StackStore) :
    (startSet setting decisionState stack fullContext store).1.Only
      (setting.network.IsAlternative decisionState) := by
  rw [startSet_eq]
  refine List.foldlRecOn (outsets setting.network decisionState stack) _
    (motive := fun search : Search =>
      search.found.Only (setting.network.IsAlternative decisionState))
    (.empty _ _) ?_
  intro search only origin member
  obtain ⟨⟨edge, place⟩, isEdge, rfl⟩ := List.mem_map.mp member
  have inBounds := List.snd_lt_of_mem_zipIdx isEdge
  refine only_follow only ⟨?_, ?_⟩
  · exact Nat.le_add_left 1 place
  · change place + 1 ≤ _
    omega

/-- Dropping configurations by their precedence leaves no other alternatives. -/
theorem only_filterByPrecedence
    {set : ConfigurationSet}
    (only : set.Only property)
    (store : StackStore) :
    (filterByPrecedence setting set store).1.Only property := by
  refine only_addAll _ (.empty _ _) ?_ store
  intro configuration member
  rcases List.mem_append.mp member with isRound | isOther
  · obtain ⟨origin, isOrigin, isSettled⟩ := List.mem_filterMap.mp isRound
    obtain ⟨condition, _, rfl⟩ := Option.map_eq_some_iff.mp isSettled
    exact only.each origin (Array.mem_toList_iff.mp (List.mem_filter.mp isOrigin).1)
  · exact only.each configuration (Array.mem_toList_iff.mp (List.mem_filter.mp isOther).1)

/-- A token leads to no other alternatives. -/
theorem only_reachSet?
    {set reached : ConfigurationSet}
    {symbol : Int}
    {fullContext : Bool}
    {store after : StackStore}
    (only : set.Only property)
    (leads : reachSet? setting set symbol fullContext store = (some reached, after)) :
    reached.Only property := by
  have kept :
      (keptSet setting.network symbol
        (followedSet setting set symbol fullContext store).1).Only property :=
    (only_keptSet set symbol fullContext store).mono fun ⟨configuration, member, same, _⟩ =>
      same ▸ only.each configuration member
  have isFinished :
      ∀ configuration ∈ finishedConfigurations setting.network set symbol fullContext,
        property configuration.alternative := by
    intro configuration member
    unfold finishedConfigurations at member
    split at member
    · exact only.each configuration (Array.mem_toList_iff.mp (List.mem_filter.mp member).1)
    · cases member
  rw [reachSet?_eq] at leads
  simp only [Prod.mk.injEq, Option.ite_none_left_eq_some, Option.some.injEq] at leads
  obtain ⟨⟨-, same⟩, -⟩ := leads
  rw [← same]
  split
  · exact only_addAll _ kept isFinished _
  · exact kept

end Reaching

end Prediction

/-- The alternatives that a verdict leaves have the property. -/
structure Verdict.Only
    (property : Nat → Prop)
    (verdict : Verdict) :
    Prop where
  lowest : property verdict.alternative
  guarded :
    ∀ {guards : List (Condition × Nat)},
      verdict.guards = some guards → ∀ guard ∈ guards, property guard.2

/-- All alternatives in an automaton have the property. -/
structure Automaton.Only
    (property : Nat → Prop)
    (automaton : Automaton) :
    Prop where
  sets :
    ∀ {number : Nat} {state : AutomatonState},
      automaton.states[number]? = some state → state.configurations.Only property
  verdicts :
    ∀ {number : Nat} {verdict : Verdict},
      automaton.verdictOf? number = some verdict → verdict.Only property

/-- An automaton of a decision holds alternatives of the decision only. -/
structure Automaton.Proposes
    (network : Network)
    (decisionState : Nat)
    (automaton : Automaton) :
    Prop where
  sameState : automaton.decisionState = decisionState
  only : automaton.Only (network.IsAlternative decisionState)

namespace Automaton.Only

variable {property : Nat → Prop} {automaton : Automaton}

theorem initial
    (property : Nat → Prop)
    (network : Network)
    (decisionState : Nat) :
    (Automaton.initial network decisionState).Only property where
  sets := by simp [Automaton.initial]
  verdicts := by simp [Automaton.initial, Automaton.verdictOf?]

theorem configurationsOf
    (only : automaton.Only property)
    (number : Nat) :
    (automaton.configurationsOf number).Only property := by
  unfold Automaton.configurationsOf
  split
  · rename_i state present
    exact only.sets present
  · exact .empty property false

/-- A state for configurations of such alternatives can be added, with such a verdict. -/
theorem addState
    (only : automaton.Only property)
    {set : ConfigurationSet}
    {verdict? : Option Verdict}
    (setOnly : set.Only property)
    (verdictOnly : ∀ verdict, verdict? = some verdict → verdict.Only property) :
    (automaton.addState set verdict?).2.Only property := by
  cases known : automaton.index[set.keys]? with
  | some number =>
      rw [addState_of_known known]
      exact only
  | none =>
      rw [addState_of_new known]
      refine ⟨?_, ?_⟩
      · intro number state present
        rw [Array.getElem?_push] at present
        split at present
        · cases present
          exact setOnly
        · exact only.sets present
      · intro number verdict isVerdict
        unfold Automaton.verdictOf? at isVerdict
        rw [Array.getElem?_push] at isVerdict
        split at isVerdict
        · rename_i state isState
          split at isState
          · cases isState
            exact verdictOnly verdict isVerdict
          · exact @only.verdicts number verdict (by simp [Automaton.verdictOf?, isState, isVerdict])
        · cases isVerdict

/-- Recording a start adds no alternatives. -/
theorem setStart
    (only : automaton.Only property)
    (precedence : Int)
    (number : Nat) :
    (automaton.setStart precedence number).Only property where
  sets present := only.sets (states_setStart automaton precedence number ▸ present)
  verdicts := by
    intro other verdict isVerdict
    refine @only.verdicts other verdict ?_
    unfold Automaton.verdictOf? at isVerdict ⊢
    rwa [states_setStart] at isVerdict

/-- Recording a successor adds no alternatives. -/
theorem setSuccessor
    (only : automaton.Only property)
    (number : Nat)
    (symbol : Int)
    (successor : Successor) :
    (automaton.setSuccessor number symbol successor).Only property where
  sets := by
    intro other state present
    rw [getElem?_states_setSuccessor, Option.map_eq_some_iff] at present
    obtain ⟨before, isBefore, rfl⟩ := present
    have beforeOnly := only.sets isBefore
    split <;> exact beforeOnly
  verdicts := by
    intro other verdict isVerdict
    refine @only.verdicts other verdict ?_
    unfold Automaton.verdictOf? at isVerdict ⊢
    rw [getElem?_states_setSuccessor] at isVerdict
    cases present : automaton.states[other]? with
    | none => simp [present] at isVerdict
    | some state =>
        simp only [present, Option.map_some] at isVerdict
        split at isVerdict <;> exact isVerdict

end Automaton.Only

namespace Prediction

section Verdicts

variable {property : Nat → Prop} {set : ConfigurationSet}

/-- The verdict for some alternatives leaves those and no others. -/
theorem only_ofAlternatives
    {alternatives : List Nat}
    {needsFullContext : Bool}
    (notNil : alternatives ≠ [])
    (have_ : ∀ alternative ∈ alternatives, property alternative) :
    (Verdict.ofAlternatives set alternatives needsFullContext).Only property := by
  obtain ⟨lowest, others, rfl⟩ := List.exists_cons_of_ne_nil notNil
  refine ⟨have_ lowest List.mem_cons_self, ?_⟩
  intro guards isGuarded guard member
  simp only [Verdict.ofAlternatives, Option.ite_none_right_eq_some, Option.some.injEq]
    at isGuarded
  rw [← isGuarded.2] at member
  obtain ⟨alternative, isAlternative, rfl⟩ := List.mem_map.mp member
  exact have_ alternative isAlternative

/-- The verdict on some configurations leaves alternatives of theirs. -/
theorem only_verdictOf?
    {network : Network}
    {verdict : Verdict}
    (only : set.Only property)
    (nonempty : set.isEmpty = false)
    (isVerdict : verdictOf? network set = some verdict) :
    verdict.Only property := by
  unfold verdictOf? at isVerdict
  split at isVerdict
  · rename_i alternative unique
    cases isVerdict
    refine only_ofAlternatives (by simp) fun other member => ?_
    rw [List.mem_singleton.mp member]
    exact only_of_hasAlternative only (hasAlternative_of_uniqueAlternative? unique)
  · split at isVerdict
    · cases isVerdict
      refine only_ofAlternatives ?_ fun alternative member =>
        only_of_hasAlternative only (mem_alternativesOf_iff.mp member)
      intro isNil
      have isList : set.configurations.toList ≠ [] := by
        simpa [ConfigurationSet.isEmpty] using nonempty
      obtain ⟨first, isFirst⟩ := List.exists_mem_of_ne_nil _ isList
      have member : first.alternative ∈ alternativesOf set :=
        mem_alternativesOf_iff.mpr ⟨first, Array.mem_toList_iff.mp isFirst, rfl⟩
      rw [isNil] at member
      cases member
    · cases isVerdict

/-- Of guarded alternatives some hold. -/
theorem mem_holdingAlternatives
    {precedence : Int}
    {guards : List (Condition × Nat)}
    {alternative : Nat}
    (member : alternative ∈ holdingAlternatives precedence guards) :
    ∃ guard ∈ guards, guard.2 = alternative := by
  have inserted :
      ∀ (guards : List (Condition × Nat)) (alternatives : List Nat),
        alternative ∈
            guards.foldl
              (fun alternatives guard =>
                ConfigurationSet.insertAlternative guard.2 alternatives) alternatives →
          alternative ∈ alternatives ∨ ∃ guard ∈ guards, guard.2 = alternative := by
    intro guards
    induction guards with
    | nil => exact fun _ => Or.inl
    | cons head tail inductionHypothesis =>
        intro alternatives present
        rcases inductionHypothesis _ present with isThere | ⟨guard, isGuard, same⟩
        · rcases mem_insertAlternative_iff.mp isThere with isHead | isOld
          · exact .inr ⟨head, List.mem_cons_self, isHead.symm⟩
          · exact .inl isOld
        · exact .inr ⟨guard, List.mem_cons_of_mem _ isGuard, same⟩
  rcases inserted _ [] member with isThere | ⟨guard, isGuard, same⟩
  · cases isThere
  · exact ⟨guard, (List.mem_filter.mp isGuard).1, same⟩

/-- The outcome of a verdict gives an alternative that the verdict leaves. -/
theorem only_outcomeOf
    {verdict : Verdict}
    (only : verdict.Only property)
    (precedence : Int)
    (start : Nat) :
    (outcomeOf precedence start verdict).Only property := by
  intro alternative isOutcome
  have held :
      ∀ {guards : List (Condition × Nat)} {lowest : Nat} {others : List Nat},
        verdict.guards = some guards →
          holdingAlternatives precedence guards = lowest :: others → property lowest := by
    intro guards lowest others isGuarded isHolding
    obtain ⟨guard, isGuard, rfl⟩ :=
      mem_holdingAlternatives (isHolding ▸ List.mem_cons_self)
    exact only.guarded isGuarded guard isGuard
  unfold outcomeOf at isOutcome
  split at isOutcome
  · split at isOutcome
    · cases isOutcome
    · cases isOutcome
      exact only.lowest
  · rename_i guards isGuarded
    split at isOutcome
    · rename_i single isHolding
      cases isOutcome
      exact held isGuarded isHolding
    · split at isOutcome <;> cases isOutcome
    · rename_i lowest others _ isHolding
      split at isOutcome
      · cases isOutcome
      · cases isOutcome
        exact held isGuarded isHolding

end Verdicts

section Memories

variable {setting : Setting} {decisionState : Nat} {memory : Memory}

/-- The first state of a prediction is for alternatives of the decision. -/
theorem proposes_startState
    (proposes : memory.automaton.Proposes setting.network decisionState)
    (missing : memory.automaton.start? setting.precedence = none) :
    (Prediction.startState setting memory).2.automaton.Proposes setting.network decisionState := by
  have begun :
      (beginSet setting memory).1.Only (setting.network.IsAlternative decisionState) := by
    have started :=
      @only_startSet setting memory.automaton.decisionState StackId.empty false memory.store
    rw [proposes.sameState] at started
    unfold beginSet
    rw [proposes.sameState]
    split
    · exact only_filterByPrecedence started _
    · exact started
  have stillMissing :
      (memory.automaton.addState (beginSet setting memory).1 none).2.start? setting.precedence =
        none := by
    rw [Automaton.start?_addState, missing]
  rw [startState_of_missing missing]
  refine ⟨?_, (proposes.only.addState begun (by simp)).setStart _ _⟩
  rw [← proposes.sameState]
  exact ((Automaton.extends_addState memory.automaton _ _).trans
    (Automaton.extends_setStart stillMissing _)).decisionState

/-- Where a token leads is for alternatives of the decision. -/
theorem proposes_computeSuccessor
    (proposes : memory.automaton.Proposes setting.network decisionState)
    (number : Nat)
    (symbol : Int) :
    (Prediction.computeSuccessor setting memory number symbol).2.automaton.Proposes
      setting.network decisionState := by
  unfold Prediction.computeSuccessor
  cases leads :
    reachSet? setting (memory.automaton.configurationsOf number) symbol false memory.store with
  | mk reached? after =>
      cases reached? with
      | none => exact ⟨proposes.sameState, proposes.only.setSuccessor number symbol .dead⟩
      | some reached =>
          have reachedOnly := only_reachSet? (proposes.only.configurationsOf number) leads
          have verdictOnly := fun verdict =>
            @only_verdictOf? _ reached setting.network verdict reachedOnly
              (isEmpty_of_reachSet? leads)
          refine ⟨?_, (proposes.only.addState reachedOnly verdictOnly).setSuccessor _ _ _⟩
          rw [← proposes.sameState]
          exact (Automaton.extends_addState memory.automaton _ _).decisionState

/-- Whether a token's lead was remembered or not, it is for alternatives of the decision. -/
theorem proposes_successor
    (proposes : memory.automaton.Proposes setting.network decisionState)
    (number : Nat)
    (symbol : Int) :
    (Prediction.successor setting memory number symbol).2.automaton.Proposes setting.network
      decisionState := by
  unfold Prediction.successor
  split
  · exact proposes
  · exact proposes_computeSuccessor proposes number symbol

variable {σ : Type} [TokenSource σ]

/-- A step of a prediction settles for an alternative of the decision, or goes on with such. -/
theorem Stage.proposes_step
    {stage : Stage σ}
    (proposes : stage.memory.automaton.Proposes setting.network decisionState)
    (start : Nat) :
    match stage.step setting start with
    | .inl (outcome, memory, _) =>
        outcome.Only (setting.network.IsAlternative decisionState) ∧
          memory.automaton.Proposes setting.network decisionState
    | .inr next => next.memory.automaton.Proposes setting.network decisionState := by
  have behind := proposes_successor proposes stage.number stage.symbol
  unfold Stage.step
  cases stepped : Prediction.successor setting stage.memory stage.number stage.symbol with
  | mk leadsTo after =>
      rw [stepped] at behind
      cases leadsTo with
      | dead =>
          dsimp only
          cases finished :
            finishedAlternative? setting (after.automaton.configurationsOf stage.number)
              after.store with
          | none => exact ⟨by rintro _ ⟨⟩, behind⟩
          | some alternative =>
              refine ⟨?_, behind⟩
              rintro _ ⟨⟩
              exact only_of_hasAlternative (behind.only.configurationsOf stage.number)
                (hasAlternative_of_finishedAlternative? finished)
      | state next =>
          dsimp only
          cases isVerdict : after.automaton.verdictOf? next with
          | none => exact behind
          | some verdict =>
              exact ⟨only_outcomeOf (behind.only.verdicts isVerdict) _ _, behind⟩

/-- A remembered prediction gives and remembers alternatives of its decision only. -/
theorem proposes_predictRemembered
    (proposes : memory.automaton.Proposes setting.network decisionState)
    (tokens : TokenStream σ)
    (start : Nat) :
    let predicted := Prediction.predictRemembered setting memory tokens start
    predicted.1.Only (setting.network.IsAlternative decisionState) ∧
      predicted.2.1.automaton.Proposes setting.network decisionState := by
  have followed :
      ∀ (limit : Nat) (stage : Stage σ),
        stage.memory.automaton.Proposes setting.network decisionState →
          let predicted :=
            followAutomaton setting start limit stage.number stage.index stage.memory stage.tokens
          predicted.1.Only (setting.network.IsAlternative decisionState) ∧
            predicted.2.1.automaton.Proposes setting.network decisionState := by
    intro limit
    induction limit with
    | zero => exact fun stage proposes => ⟨by rintro _ ⟨⟩, proposes⟩
    | succ limit inductionHypothesis =>
        intro stage proposes
        rw [Stage.followAutomaton_succ]
        have kept := Stage.proposes_step proposes start
        cases stepped : stage.step setting start with
        | inl settled =>
            rw [stepped] at kept
            exact kept
        | inr next =>
            rw [stepped] at kept
            exact inductionHypothesis next kept
  rw [Stage.predictRemembered_eq]
  refine followed _ _ ?_
  exact Stage.first_induction (fun memory => memory.automaton.Proposes setting.network decisionState)
    (fun _ proposes missing => proposes_startState proposes missing) proposes tokens start

/-- A prediction in context gives an alternative that it began with. -/
theorem only_simulateTokens
    {property : Nat → Prop}
    (limit : Nat)
    {stage : ContextStage σ}
    (only : stage.set.Only property) :
    (simulateTokens setting limit stage.set stage.index stage.store stage.tokens).1.Only
      property := by
  induction limit generalizing stage with
  | zero => rintro _ ⟨⟩
  | succ limit inductionHypothesis =>
      rw [ContextStage.simulateTokens_succ]
      unfold ContextStage.step
      cases leads : reachSet? setting stage.set stage.symbol true stage.store with
      | mk reached? after =>
          cases reached? with
          | none =>
              dsimp only
              cases finished : finishedAlternative? setting stage.set after with
              | none => rintro _ ⟨⟩
              | some alternative =>
                  rintro _ ⟨⟩
                  exact only_of_hasAlternative only
                    (hasAlternative_of_finishedAlternative? finished)
          | some reached =>
              have reachedOnly := only_reachSet? only leads
              dsimp only
              cases decided :
                reached.uniqueAlternative?.or (commonLowest? reached.alternativesByPlace) with
              | none =>
                  refine inductionHypothesis ?_
                  rw [ContextStage.set_advance]
                  exact reachedOnly
              | some alternative =>
                  rintro _ ⟨⟩
                  rcases Option.or_eq_some_iff.mp decided with unique | ⟨-, common⟩
                  · exact only_of_hasAlternative reachedOnly
                      (hasAlternative_of_uniqueAlternative? unique)
                  · exact only_of_hasAlternative reachedOnly
                      (hasAlternative_of_commonLowest? common)

/-- A prediction in context gives an alternative of its decision. -/
theorem only_predictInContext
    (decisionState : Nat)
    (returnStates : List Nat)
    (store : StackStore)
    (tokens : TokenStream σ)
    (start : Nat) :
    (predictInContext setting decisionState returnStates store tokens start).1.Only
      (setting.network.IsAlternative decisionState) :=
  @only_simulateTokens setting σ _ _ _
    (ContextStage.first setting decisionState returnStates store tokens start)
    (only_startSet decisionState _ true _)

end Memories

end Prediction

end GrammarService
