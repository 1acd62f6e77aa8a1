import GrammarService.Proofs.Prediction.Indexing

namespace GrammarService

/-!
# Which configurations a precedence loop drops

Going on with a precedence loop is alternative 1. Where its conditions still can hold at the
precedence of the rule invocation, it covers the places that it comes to: another alternative that
is there gives way. But of several stacks in which alternative 1 comes to a state only the last one
is looked up, so a place with an earlier one is not covered.
-/

namespace Prediction

variable
  {precedence : Int}
  {configurations : List Configuration}
  {configuration : Configuration}

/-- Alternative 1 survives in its configurations that still can hold, their conditions settled. -/
theorem mem_settledRound_iff :
    configuration ∈ settledRound precedence configurations ↔
      ∃ origin ∈ configurations, ∃ condition,
        origin.alternative = 1 ∧ origin.condition.settleAt? precedence = some condition ∧
          configuration = { origin with condition := condition } := by
  simp only [settledRound, List.mem_filterMap, List.mem_filter, beq_iff_eq,
    Option.map_eq_some_iff]
  constructor
  · rintro ⟨origin, ⟨member, isRound⟩, condition, isSettled, rfl⟩
    exact ⟨origin, member, condition, isRound, isSettled, rfl⟩
  · rintro ⟨origin, member, condition, isRound, isSettled, rfl⟩
    exact ⟨origin, ⟨member, isRound⟩, condition, isSettled, rfl⟩

theorem alternative_of_mem_settledRound
    (member : configuration ∈ settledRound precedence configurations) :
    configuration.alternative = 1 := by
  obtain ⟨origin, -, condition, isRound, -, rfl⟩ := mem_settledRound_iff.mp member
  exact isRound

/-- The last of several configurations that is in a state. -/
def lastIn?
    (state : Nat)
    (configurations : List Configuration) :
    Option Configuration :=
  configurations.reverse.find? fun configuration => configuration.state = state

/-- A table of the stacks by state, made in turn, has the last stack for each state. -/
theorem getElem?_stackOfRound
    (round : List Configuration)
    (state : Nat) :
    (round.foldl
        (fun byState configuration => byState.insert configuration.state configuration.stack)
        (∅ : Std.HashMap Nat StackId))[state]? =
      (lastIn? state round).map Configuration.stack := by
  induction round using List.reverseRecOn with
  | nil => simp [lastIn?]
  | append_singleton earlier last inductionHypothesis =>
      rw [List.foldl_append, List.foldl_cons, List.foldl_nil, Std.HashMap.getElem?_insert,
        inductionHypothesis, lastIn?, lastIn?, List.reverse_append, List.reverse_singleton,
        List.singleton_append, List.find?_cons]
      by_cases isState : last.state = state <;> simp [isState]

/-- Alternative 1 survives in the state and with the stack of a configuration. -/
def IsCovered
    (round : List Configuration)
    (configuration : Configuration) :
    Prop :=
  ∃ survivor ∈ round,
    survivor.state = configuration.state ∧ survivor.stack = configuration.stack

/-- Alternative 1 survives last in the state of a configuration with another stack. -/
def IsShadowed
    (round : List Configuration)
    (configuration : Configuration) :
    Prop :=
  ∃ last,
    lastIn? configuration.state round = some last ∧ last.stack ≠ configuration.stack

/-- Where alternative 1 survives last with the stack of a configuration, it covers that. -/
theorem lastIn?_ne_iff
    {round : List Configuration} :
    (lastIn? configuration.state round).map Configuration.stack ≠ some configuration.stack ↔
      ¬ IsCovered round configuration ∨ IsShadowed round configuration := by
  cases isLast : lastIn? configuration.state round with
  | none =>
      have notThere := List.find?_eq_none.mp isLast
      have notCovered : ¬ IsCovered round configuration := by
        rintro ⟨survivor, member, sameState, -⟩
        exact notThere survivor (List.mem_reverse.mpr member) (decide_eq_true sameState)
      simp [notCovered]
  | some last =>
      have isThere : last ∈ round := List.mem_reverse.mp (List.mem_of_find?_eq_some isLast)
      have sameState : last.state = configuration.state := by
        simpa using List.find?_some isLast
      by_cases sameStack : last.stack = configuration.stack
      · have isCovered : IsCovered round configuration := ⟨last, isThere, sameState, sameStack⟩
        simp [isCovered, IsShadowed, isLast, sameStack]
      · simp [IsShadowed, isLast, sameStack]

/-- Whether a configuration is of another alternative and does not give way to alternative 1. -/
def staysBeside
    (round : List Configuration)
    (configuration : Configuration) :
    Bool :=
  configuration.alternative != 1 &&
    (configuration.filterSuppressed ||
      (lastIn? configuration.state round).map Configuration.stack != some configuration.stack)

theorem staysBeside_iff
    {round : List Configuration}
    (alternative : configuration.alternative ≠ 1) :
    staysBeside round configuration = true ↔
      configuration.filterSuppressed = true ∨
        ¬ IsCovered round configuration ∨ IsShadowed round configuration := by
  rw [← lastIn?_ne_iff]
  simp [staysBeside, alternative]

theorem filterByPrecedence_eq
    (setting : Setting)
    (set : ConfigurationSet)
    (store : StackStore) :
    filterByPrecedence setting set store =
      let round := settledRound setting.precedence set.configurations.toList
      addAll (ConfigurationSet.empty set.fullContext) store
        (round ++ set.configurations.toList.filter (staysBeside round)) := by
  simp only [filterByPrecedence, getElem?_stackOfRound]
  rfl

/-- No configuration of another alternative shares a key with one of alternative 1. -/
theorem sharing_settledRound
    (alternative : configuration.alternative ≠ 1) :
    Configuration.sharing (ConfigurationSet.indexKey configuration)
      (settledRound precedence configurations) = [] := by
  refine List.filter_eq_nil_iff.mpr fun survivor member sameKey => alternative ?_
  have same := congrArg (·.2.1) (of_decide_eq_true sameKey)
  exact same.symm.trans (alternative_of_mem_settledRound member)

theorem sharing_staysBeside
    {round : List Configuration}
    (alternative : configuration.alternative = 1) :
    Configuration.sharing (ConfigurationSet.indexKey configuration)
      (configurations.filter (staysBeside round)) = [] := by
  refine List.filter_eq_nil_iff.mpr fun other member sameKey => ?_
  have same : other.alternative = configuration.alternative :=
    congrArg (·.2.1) (of_decide_eq_true sameKey)
  have isOther := (List.mem_filter.mp member).2
  simp [staysBeside, same, alternative] at isOther

/--
What a precedence loop keeps. Of alternative 1 it keeps the configurations that can still hold,
with their settled conditions, those of one state and condition pooled. Of the other alternatives
it keeps, as they are, those that left the loop by returning from its rule, those in no place that
alternative 1 survives in, and besides those with another stack than the last one in which
alternative 1 survives in their state.
-/
theorem filterByPrecedence_keeps
    (setting : Setting)
    {set : ConfigurationSet}
    {store : StackStore}
    (isMade : set.IsMade)
    (wellMade : store.WellMade)
    (isIn : set.IsIn store) :
    let filtered := filterByPrecedence setting set store
    let round := settledRound setting.precedence set.configurations.toList
    (∀ survivor,
      survivor ∈ round ↔
        ∃ origin ∈ set.configurations, ∃ condition,
          origin.alternative = 1 ∧
            origin.condition.settleAt? setting.precedence = some condition ∧
              survivor = { origin with condition := condition }) ∧
    (∀ configuration,
      configuration.alternative = 1 →
        (configuration ∈ filtered.1.configurations ↔
          Configuration.pool? filtered.2 (!set.fullContext)
              (Configuration.sharing (ConfigurationSet.indexKey configuration) round) =
            some configuration)) ∧
    ∀ configuration,
      configuration.alternative ≠ 1 →
        (configuration ∈ filtered.1.configurations ↔
          configuration ∈ set.configurations ∧
            (configuration.filterSuppressed = true ∨
              ¬ IsCovered round configuration ∨ IsShadowed round configuration)) := by
  intro filtered round
  have isThere :
      ∀ configuration ∈ round ++ set.configurations.toList.filter (staysBeside round),
        store.IsIn configuration.stack := by
    intro configuration member
    rcases List.mem_append.mp member with isRound | isOther
    · obtain ⟨origin, isOrigin, _, -, -, rfl⟩ := mem_settledRound_iff.mp isRound
      exact isIn origin (Array.mem_toList_iff.mp isOrigin)
    · exact isIn configuration (Array.mem_toList_iff.mp (List.mem_filter.mp isOther).1)
  have isAdded := filterByPrecedence_eq setting set store
  have isIndexed : filtered.1.IsIndexed := by
    rw [show filtered = _ from isAdded]
    exact isIndexed_addAll (.empty _) _ _
  have found :
      ∀ key,
        filtered.1.find? key =
          Configuration.pool? filtered.2 (!set.fullContext)
            (Configuration.sharing key (round ++ set.configurations.toList.filter (staysBeside round))) := by
    rw [show filtered = _ from isAdded]
    exact find?_addAll_empty wellMade set.fullContext _ isThere (.refl _)
  refine ⟨fun survivor => ?_, fun configuration alternative => ?_,
    fun configuration alternative => ?_⟩
  · rw [mem_settledRound_iff]
    simp only [Array.mem_toList_iff]
  · rw [isIndexed.mem_iff, found, Configuration.sharing_append, sharing_staysBeside alternative,
      List.append_nil]
  · rw [isIndexed.mem_iff, found, Configuration.sharing_append, sharing_settledRound alternative,
      List.nil_append, Configuration.sharing_filter, isMade.isIndexed.sharing_eq,
      ← Option.toList_filter, Configuration.pool?_toList, Option.filter_eq_some_iff,
      staysBeside_iff alternative, isMade.isIndexed.mem_iff]

namespace TwoRounds

/--
An encoded network for `s : e EOF`, `e : 'i' | e x 'c' 'c' e | e {0}? x 'd' e` and `x : 'a'`. Both
ways to go on with `e` begin with `x`, but return from it to different states. Whether to go on is
decided at state 9.
-/
def encoded : List Int :=
  [4, 1, 5, 28, 2, 0, 7, 0, 2, 1, 7, 1, 2, 2, 7, 2, 1, 0, 1, 0, 1, 1, 10, 1, 5, 1, 12, 12, 1,
    13, 8, 1, 9, 1, 1, 1, 1, 1, 1, 1, 1, 1, 1, 1, 1, 1, 1, 1, 1, 1, 1, 1, 1, 1, 1, 1, 1, 1, 1, 2,
    1, 2, 0, 1, 2, 3, 0, 2, 4, 0, 0, 27, 0, 6, 1, 0, 0, 0, 6, 7, 3, 2, 1, 0, 7, 1, 5, 0, 0, 1, 2,
    8, 1, 0, 0, 0, 8, 9, 5, 1, 0, 0, 9, 10, 1, 0, 0, 0, 9, 11, 1, 0, 0, 0, 11, 3, 1, 0, 0, 0, 10,
    14, 1, 0, 0, 0, 10, 20, 1, 0, 0, 0, 14, 15, 10, 3, 0, 0, 15, 16, 3, 4, 2, 0, 16, 17, 5, 3, 0,
    0, 17, 18, 5, 3, 0, 0, 18, 19, 3, 2, 1, 3, 19, 12, 1, 0, 0, 0, 20, 21, 10, 3, 0, 0, 21, 22, 4,
    1, 0, 0, 22, 23, 3, 4, 2, 0, 23, 24, 5, 4, 0, 0, 24, 25, 3, 2, 1, 3, 25, 12, 1, 0, 0, 0, 12,
    13, 1, 0, 0, 0, 13, 9, 1, 0, 0, 0, 4, 26, 1, 0, 0, 0, 26, 27, 5, 2, 0, 0, 27, 5, 1, 0, 0, 0, 2,
    9, 10]

/-- The decision in an invocation of `e` with the precedence that its rounds have. -/
def setting : Setting where
  network := (Network.decode encoded).toOption.getD default
  precedenceRule := some 1
  precedence := 3

/-- The set in which the decision begins. -/
def begun : ConfigurationSet × StackStore :=
  startSet setting 9 StackId.empty false StackStore.initial

/-- Before `'a'` behind the loop, where `x` returns to the first round. -/
def coveredFirst : Configuration where
  state := 26
  alternative := 2
  stack := 1
  condition := .always
  outerReaches := 2
  filterSuppressed := false

theorem isMade_begun : begun.1.IsMade :=
  isMade_startSet ..

theorem holds_begun : begun.2.WellMade ∧ begun.1.IsIn begun.2 := by
  have begins :=
    repeats_startSet setting 9 false .initial StackStore.WellMade.initial.empty_valid
  exact ⟨begins.wellMade, begins.valid⟩

theorem filters_begun :
    begun.1.IsMade ∧ begun.2.WellMade ∧ begun.1.IsIn begun.2 ∧ coveredFirst.alternative ≠ 1 ∧
      let round := settledRound setting.precedence begun.1.configurations.toList
      (coveredFirst ∈ (filterByPrecedence setting begun.1 begun.2).1.configurations ↔
        coveredFirst ∈ begun.1.configurations ∧
          (coveredFirst.filterSuppressed = true ∨
            ¬ IsCovered round coveredFirst ∨ IsShadowed round coveredFirst)) :=
  have isOther : coveredFirst.alternative ≠ 1 := by decide
  have keeps := filterByPrecedence_keeps setting isMade_begun holds_begun.1 holds_begun.2
  ⟨isMade_begun, holds_begun.1, holds_begun.2, isOther, keeps.2.2 coveredFirst isOther⟩

set_option maxRecDepth 20000 in
/--
Alternative 1 comes to the state in which it needs `'a'` with two stacks, one for each round. The
configuration of alternative 2 in that state with the first of them is kept.
-/
theorem keeps_coveredFirst :
    Network.decode encoded = .ok setting.network ∧
      coveredFirst ∈ begun.1.configurations ∧
        coveredFirst.alternative ≠ 1 ∧
          coveredFirst.filterSuppressed = false ∧
            (∃ survivor ∈ settledRound setting.precedence begun.1.configurations.toList,
              survivor.state = coveredFirst.state ∧ survivor.stack = coveredFirst.stack) ∧
              coveredFirst ∈ (filterByPrecedence setting begun.1 begun.2).1.configurations := by
  -- All three are read off the set at once, so that it is computed only once.
  have computed :
      (fun begun : ConfigurationSet × StackStore =>
        begun.1.configurations.contains coveredFirst &&
          (filterByPrecedence setting begun.1 begun.2).1.configurations.contains coveredFirst &&
            (settledRound setting.precedence begun.1.configurations.toList).any fun survivor =>
              survivor.state == coveredFirst.state && survivor.stack == coveredFirst.stack)
          begun =
        true := by
    cbv
  simp only [Bool.and_eq_true, Array.contains_iff_mem, List.any_eq_true, beq_iff_eq] at computed
  obtain ⟨⟨isThere, isKept⟩, covered⟩ := computed
  exact ⟨by cbv, isThere, by decide, rfl, covered, isKept⟩

end TwoRounds

end Prediction

end GrammarService
