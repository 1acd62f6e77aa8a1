import Mathlib
import GrammarService.Prediction.Predict

namespace GrammarService

/-!
# Adding to configuration sets

`ConfigurationSet.add` appends a configuration, or joins it to the one of the same state,
alternative and condition. The lemmas here say what that does to the configurations, so that no
other proof has to open the definition.
-/

namespace Configuration

/-- A configuration together with a twin, given their merged stack. -/
def joinedWith
    (present added : Configuration)
    (stack : StackId) :
    Configuration :=
  { present with
    stack := stack
    outerReaches := max present.outerReaches added.outerReaches
    filterSuppressed := present.filterSuppressed || added.filterSuppressed }

end Configuration

namespace ConfigurationSet

variable {set : ConfigurationSet} {configuration : Configuration} {store : StackStore}

/-- Whether a set has conditions once a configuration was added. -/
def hasConditionsWith
    (set : ConfigurationSet)
    (configuration : Configuration) :
    Bool :=
  set.hasConditions || configuration.condition ≠ .always

/-- A configuration without a twin is appended. -/
theorem add_of_new
    (new : set.index[indexKey configuration]? = none) :
    (set.add configuration).run store =
      ({ set with
          hasConditions := set.hasConditionsWith configuration
          index := set.index.insert (indexKey configuration) set.configurations.size
          configurations := set.configurations.push configuration },
        store) := by
  simp only [add, new]
  rfl

/-- A configuration with a twin is joined to it. -/
theorem add_of_known
    {position : Nat}
    (known : set.index[indexKey configuration]? = some position) :
    (set.add configuration).run store =
      let twin := set.configurations.getD position configuration
      let merged :=
        (StackStore.merge twin.stack configuration.stack (!set.fullContext)).run store
      ({ set with
          hasConditions := set.hasConditionsWith configuration
          configurations :=
            set.configurations.modify position
              (·.joinedWith configuration merged.1) },
        merged.2) := by
  simp only [add, known]
  rfl

/-- Adding a configuration leaves the kind of stacks alone. -/
@[simp] theorem fullContext_add :
    ((set.add configuration).run store).1.fullContext = set.fullContext := by
  cases known : set.index[indexKey configuration]? with
  | none => simp [add_of_new known]
  | some position => simp [add_of_known known]

/--
What holds of all configurations, and does not look at the fields that twins are joined in, holds
after one more is added.
-/
theorem forall_add
    {property : Configuration → Prop}
    (joins :
      ∀ present added stack, property present → property (present.joinedWith added stack))
    (old : ∀ present ∈ set.configurations, property present)
    (new : property configuration) :
    ∀ present ∈ ((set.add configuration).run store).1.configurations,
      property present := by
  intro present member
  cases known : set.index[indexKey configuration]? with
  | none =>
      rw [add_of_new known] at member
      rcases Array.mem_push.mp member with isOld | rfl
      · exact old present isOld
      · exact new
  | some position =>
      rw [add_of_known known] at member
      obtain ⟨place, inBounds, rfl⟩ := Array.mem_iff_getElem.mp member
      simp only [Array.size_modify] at inBounds
      simp only [Array.getElem_modify]
      split
      · exact joins _ _ _ (old _ (Array.getElem_mem inBounds))
      · exact old _ (Array.getElem_mem inBounds)

/-- Retaining some configurations retains none but those that satisfy the test. -/
theorem mem_retain
    {keeps : Configuration → Bool} :
    configuration ∈ (set.retain keeps).configurations ↔
      configuration ∈ set.configurations ∧ keeps configuration = true := by
  simp [retain]

end ConfigurationSet

namespace Prediction

/-- What holds of all configurations, and is not about joined fields, outlasts adding several. -/
theorem forall_addAll
    {property : Configuration → Prop}
    (joins :
      ∀ present added stack, property present → property (present.joinedWith added stack))
    (added : List Configuration)
    (set : ConfigurationSet)
    (store : StackStore)
    (old : ∀ present ∈ set.configurations, property present)
    (new : ∀ configuration ∈ added, property configuration) :
    ∀ present ∈ (addAll set store added).1.configurations, property present := by
  induction added generalizing set store with
  | nil => exact old
  | cons head tail inductionHypothesis =>
      exact inductionHypothesis _ _
        (ConfigurationSet.forall_add joins old (new head List.mem_cons_self))
        fun configuration member => new configuration (List.mem_cons_of_mem head member)

/-- A token moves configurations along the edges that consume it. -/
theorem mem_moveOver_iff
    {network : Network}
    {set : ConfigurationSet}
    {type : Int}
    {behind : Configuration} :
    behind ∈ moveOver network set type ↔
      ∃ configuration ∈ set.configurations, ∃ edge,
        (network.state configuration.state).kind ≠ .ruleStop ∧
          edge ∈ (network.state configuration.state).edges ∧
            edge.consumes type 0 network.maxTokenType = true ∧
              behind = { configuration with state := edge.target } := by
  simp only [moveOver, List.mem_flatMap, Array.mem_toList_iff]
  refine exists_congr fun configuration => and_congr_right fun _ => ?_
  split
  · rename_i stopped
    simp [stopped]
  · rename_i inside
    simp only [List.mem_map, List.mem_filter, ne_eq, inside, not_false_eq_true, true_and]
    simp only [and_assoc, eq_comm]

/--
The configurations that a token leads to, before those that are not at the end of a rule are
dropped at the end of the input and before those that had finished are added.
-/
def followedSet
    (setting : Setting)
    (set : ConfigurationSet)
    (symbol : Int)
    (fullContext : Bool)
    (store : StackStore) :
    ConfigurationSet × StackStore :=
  let moved :=
    addAll (ConfigurationSet.empty fullContext) store (moveOver setting.network set symbol)
  if (finishedConfigurations setting.network set symbol fullContext).isEmpty &&
      !(symbol == endOfInput) && moved.1.uniqueAlternative?.isSome then
    moved
  else
    followAll setting (symbol == endOfInput) moved.1 moved.2

/-- Of the followed configurations, those that count for the token. -/
def keptSet
    (network : Network)
    (symbol : Int)
    (followed : ConfigurationSet) :
    ConfigurationSet :=
  if symbol == endOfInput then
    followed.retain fun configuration =>
      (network.state configuration.state).kind = .ruleStop
  else
    followed

/-- A token leads to the configurations that were kept, and often to those that had finished. -/
theorem reachSet?_eq
    (setting : Setting)
    (set : ConfigurationSet)
    (symbol : Int)
    (fullContext : Bool)
    (store : StackStore) :
    reachSet? setting set symbol fullContext store =
      let followed := followedSet setting set symbol fullContext store
      let kept := keptSet setting.network symbol followed.1
      let reached :=
        if !fullContext || !kept.anyStopped setting.network then
          addAll kept followed.2
            (finishedConfigurations setting.network set symbol fullContext)
        else
          (kept, followed.2)
      (if reached.1.isEmpty then none else some reached.1, reached.2) :=
  rfl

/-- Where the end of the input leads, every configuration is at the end of a rule. -/
theorem allStopped_of_reachSet?_endOfInput
    {setting : Setting}
    {fullContext : Bool}
    {set reached : ConfigurationSet}
    {store after : StackStore}
    (leads : reachSet? setting set endOfInput fullContext store = (some reached, after)) :
    reached.allStopped setting.network = true := by
  have kept :
      ∀ configuration ∈
          (keptSet setting.network endOfInput
            (followedSet setting set endOfInput fullContext store).1).configurations,
        (setting.network.state configuration.state).kind = .ruleStop := by
    intro configuration member
    simp only [keptSet, beq_self_eq_true, ↓reduceIte] at member
    simpa using (ConfigurationSet.mem_retain.mp member).2
  have finished :
      ∀ configuration ∈ finishedConfigurations setting.network set endOfInput fullContext,
        (setting.network.state configuration.state).kind = .ruleStop := by
    intro configuration member
    simp only [finishedConfigurations, beq_self_eq_true, Bool.or_true, ↓reduceIte,
      List.mem_filter, decide_eq_true_eq] at member
    exact member.2
  rw [reachSet?_eq] at leads
  simp only [Prod.mk.injEq, Option.ite_none_left_eq_some, Option.some.injEq] at leads
  obtain ⟨⟨_, rfl⟩, _⟩ := leads
  simp only [ConfigurationSet.allStopped, Array.all_eq_true_iff_forall_mem, decide_eq_true_eq]
  split
  · exact forall_addAll (fun _ _ _ isStopped => isStopped) _ _ _ kept finished
  · exact kept

end Prediction

end GrammarService
