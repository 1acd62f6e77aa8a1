import GrammarService.Network.Basic
import GrammarService.Prediction.Condition
import GrammarService.Prediction.Stack

namespace GrammarService

/-!
# Prediction configurations

A configuration is a place that prediction has got to on the way of one alternative. A set of
configurations keeps them in the order in which their places were first reached; configurations
of the same state, alternative and condition are one, with their stacks merged.
-/

/-- A place in a parser network reached by simulating one alternative. -/
structure Configuration where
  state : Nat
  /-- The alternative the simulation began with, counted from 1. -/
  alternative : Nat
  stack : StackId
  condition : Condition
  /-- How often the simulation left the decision's rule without a stack to return along. -/
  outerReaches : Nat
  /-- Whether the end of a precedence loop was reached by returning from the rule itself. -/
  filterSuppressed : Bool
  deriving Repr, DecidableEq, Inhabited

namespace Configuration

/-- The first configuration of an alternative. -/
def start
    (state alternative : Nat)
    (stack : StackId) :
    Configuration where
  state := state
  alternative := alternative
  stack := stack
  condition := .always
  outerReaches := 0
  filterSuppressed := false

/-- What tells configurations apart. -/
structure Key where
  state : Nat
  alternative : Nat
  stack : StackId
  condition : Condition
  filterSuppressed : Bool
  deriving Repr, DecidableEq, Hashable

/-- The key of a configuration. -/
def key (configuration : Configuration) : Key where
  state := configuration.state
  alternative := configuration.alternative
  stack := configuration.stack
  condition := configuration.condition
  filterSuppressed := configuration.filterSuppressed

end Configuration

/-- Configurations in the order in which their places were first reached. -/
structure ConfigurationSet where
  configurations : Array Configuration
  /-- The position of each state, alternative and condition. -/
  index : Std.HashMap (Nat × Nat × Condition) Nat
  /-- Whether stacks are those of the real rule invocations, down to the bottom. -/
  fullContext : Bool
  /-- Whether a configuration with a condition was ever added. -/
  hasConditions : Bool

namespace ConfigurationSet

/-- A set without configurations. -/
def empty (fullContext : Bool) : ConfigurationSet where
  configurations := #[]
  index := ∅
  fullContext := fullContext
  hasConditions := false

/-- What configurations in a set are indexed by. -/
def indexKey (configuration : Configuration) : Nat × Nat × Condition :=
  (configuration.state, configuration.alternative, configuration.condition)

/-- Add a configuration, or merge it with the one of the same state, alternative and condition. -/
def add
    (set : ConfigurationSet)
    (configuration : Configuration) :
    StateM StackStore ConfigurationSet := do
  let hasConditions := set.hasConditions || configuration.condition ≠ .always
  match set.index[indexKey configuration]? with
  | some position =>
      let present := set.configurations.getD position configuration
      let stack ← StackStore.merge present.stack configuration.stack (!set.fullContext)
      return { set with
        hasConditions := hasConditions
        configurations := set.configurations.modify position fun present =>
          { present with
            stack := stack
            outerReaches := max present.outerReaches configuration.outerReaches
            filterSuppressed :=
              present.filterSuppressed || configuration.filterSuppressed } }
  | none =>
      return { set with
        hasConditions := hasConditions
        index := set.index.insert (indexKey configuration) set.configurations.size
        configurations := set.configurations.push configuration }

/-- Keep only the configurations that satisfy a test. -/
def retain
    (set : ConfigurationSet)
    (keeps : Configuration → Bool) :
    ConfigurationSet :=
  let kept := set.configurations.filter keeps
  { set with
    configurations := kept
    index := kept.toList.zipIdx.foldl
      (fun index (configuration, position) =>
        index.insert (indexKey configuration) position)
      ∅ }

/-- Whether the set has no configurations. -/
def isEmpty (set : ConfigurationSet) : Bool :=
  set.configurations.isEmpty

/-- The keys of the configurations, in order. -/
def keys (set : ConfigurationSet) : List Configuration.Key :=
  set.configurations.toList.map Configuration.key

/-- The alternative that all configurations share, if there is one. -/
def uniqueAlternative? (set : ConfigurationSet) : Option Nat :=
  match set.configurations[0]? with
  | none => none
  | some first =>
      if set.configurations.all fun configuration =>
          configuration.alternative == first.alternative then
        some first.alternative
      else
        none

/-- Insert an alternative into ascending ones, unless it is among them. -/
def insertAlternative
    (alternative : Nat) :
    List Nat → List Nat
  | [] => [alternative]
  | head :: tail =>
      if alternative < head then
        alternative :: head :: tail
      else if alternative = head then
        head :: tail
      else
        head :: insertAlternative alternative tail

/-- Insert a configuration's alternative into the group of its state and stack. -/
def insertIntoGroup
    (configuration : Configuration) :
    List ((Nat × StackId) × List Nat) → List ((Nat × StackId) × List Nat)
  | [] => [((configuration.state, configuration.stack), [configuration.alternative])]
  | (place, alternatives) :: groups =>
      if place = (configuration.state, configuration.stack) then
        (place, insertAlternative configuration.alternative alternatives) :: groups
      else
        (place, alternatives) :: insertIntoGroup configuration groups

/--
The alternatives that reached each state and stack, in the order in which those were first
reached. Alternatives in one group cannot be told apart by what follows.
-/
def alternativesByPlace (set : ConfigurationSet) : List (List Nat) :=
  (set.configurations.foldl
    (fun groups configuration => insertIntoGroup configuration groups) []).map Prod.snd

/-- Whether some state was reached by a single alternative. -/
def hasStateOfOneAlternative (set : ConfigurationSet) : Bool :=
  set.configurations.any fun configuration =>
    set.configurations.all fun other =>
      other.state != configuration.state || other.alternative == configuration.alternative

/-- Whether all configurations are at the end of a rule. -/
def allStopped
    (set : ConfigurationSet)
    (network : Network) :
    Bool :=
  set.configurations.all fun configuration =>
    (network.state configuration.state).kind = .ruleStop

/-- Whether a configuration is at the end of a rule. -/
def anyStopped
    (set : ConfigurationSet)
    (network : Network) :
    Bool :=
  set.configurations.any fun configuration =>
    (network.state configuration.state).kind = .ruleStop

end ConfigurationSet

/-- The lowest alternative of every group, if all groups have the same. -/
def commonLowest? (groups : List (List Nat)) : Option Nat :=
  match groups.filterMap List.head? with
  | [] => none
  | first :: others => if others.all (· == first) then some first else none

end GrammarService
