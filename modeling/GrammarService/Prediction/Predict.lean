import GrammarService.Prediction.Closure
import GrammarService.Token.Stream

namespace GrammarService

/-!
# Predicting an alternative

A decision is first predicted without the real rule invocations: a rule returns to every place it
is called from. Such predictions depend on the coming tokens only and are remembered. Where they
leave alternatives in conflict, the prediction is repeated with the real invocations, which tells
apart what can be told apart; of what cannot, the lowest alternative is taken.
-/

namespace Prediction

/-- What predicting a decision comes to. -/
inductive Outcome
  | predicted (alternative : Nat)
  /-- No alternative matches; the last one failed at the token at `offending`. -/
  | noViableAlternative (offending : Nat)
  /-- Only the real rule invocations can tell the alternatives apart. -/
  | needsFullContext
  deriving Repr, DecidableEq

/-- The configurations in which the alternatives of a decision begin to differ. -/
def startSet
    (setting : Setting)
    (decisionState : Nat)
    (stack : StackId)
    (fullContext : Bool)
    (store : StackStore) :
    ConfigurationSet × StackStore :=
  let limit := followLimit setting.network stack
  (setting.network.state decisionState).edges.zipIdx.foldl
    (fun (found, store) (edge, place) =>
      let search := follow setting false limit
        { configuration := Configuration.start edge.target (place + 1) stack
          collects := true
          depth := 0
          checked := false }
        ⟨store, found, ∅⟩
      (search.found, search.store))
    (ConfigurationSet.empty fullContext, store)

/-- Add configurations to a set, in order. -/
def addAll
    (found : ConfigurationSet)
    (store : StackStore)
    (configurations : List Configuration) :
    ConfigurationSet × StackStore :=
  configurations.foldl
    (fun (found, store) configuration => (found.add configuration).run store)
    (found, store)

/-- The configurations of alternative 1 with their precedence conditions settled. -/
def settledRound
    (precedence : Int)
    (configurations : List Configuration) :
    List Configuration :=
  (configurations.filter fun configuration => configuration.alternative == 1).filterMap
    fun configuration =>
      (configuration.condition.settleAt? precedence).map fun condition =>
        { configuration with condition := condition }

/--
Drop the configurations that a precedence loop cannot be in at the precedence of the rule
invocation.

Alternative 1 goes on with the loop. Its conditions on the precedence are settled; another
alternative that is in the same state with the same stack gives way to it.
-/
def filterByPrecedence
    (setting : Setting)
    (set : ConfigurationSet)
    (store : StackStore) :
    ConfigurationSet × StackStore :=
  let configurations := set.configurations.toList
  let round := settledRound setting.precedence configurations
  let stackOfRound : Std.HashMap Nat StackId :=
    round.foldl
      (fun byState configuration => byState.insert configuration.state configuration.stack) ∅
  let others := configurations.filter fun configuration =>
    configuration.alternative != 1 &&
      (configuration.filterSuppressed ||
        stackOfRound[configuration.state]? != some configuration.stack)
  addAll (ConfigurationSet.empty set.fullContext) store (round ++ others)

/-- The configurations that a token leads to, before free edges are followed. -/
def moveOver
    (network : Network)
    (set : ConfigurationSet)
    (symbol : Int) :
    List Configuration :=
  set.configurations.toList.flatMap fun configuration =>
    let state := network.state configuration.state
    if state.kind = .ruleStop then
      []
    else
      (state.edges.filter fun edge => edge.consumes symbol 0 network.maxTokenType).map
        fun edge => { configuration with state := edge.target }

/-- The configurations that have finished the decision's rule and need no further token. -/
def finishedConfigurations
    (network : Network)
    (set : ConfigurationSet)
    (symbol : Int)
    (fullContext : Bool) :
    List Configuration :=
  if fullContext || symbol == endOfInput then
    set.configurations.toList.filter fun configuration =>
      (network.state configuration.state).kind = .ruleStop
  else
    []

/-- Follow the free edges from each configuration of a set. -/
def followAll
    (setting : Setting)
    (endIsFree : Bool)
    (set : ConfigurationSet)
    (store : StackStore) :
    ConfigurationSet × StackStore :=
  let search := set.configurations.foldl
    (fun search configuration =>
      follow setting endIsFree (followLimit setting.network configuration.stack)
        { configuration := configuration
          collects := false
          depth := 0
          checked := false }
        search)
    (⟨store, ConfigurationSet.empty set.fullContext, ∅⟩ : Search)
  (search.found, search.store)

/--
The configurations that a token leads to, if there are any.

Free edges need not be followed when a single alternative is left. At the end of the input only
configurations that have finished count. Those that had finished before stay, unless full-context
prediction found others that finish with this token.
-/
def reachSet?
    (setting : Setting)
    (set : ConfigurationSet)
    (symbol : Int)
    (fullContext : Bool)
    (store : StackStore) :
    Option ConfigurationSet × StackStore :=
  let network := setting.network
  let atEnd := symbol == endOfInput
  let finished := finishedConfigurations network set symbol fullContext
  let (moved, store) :=
    addAll (ConfigurationSet.empty fullContext) store (moveOver network set symbol)
  let (reached, store) :=
    if finished.isEmpty && !atEnd && moved.uniqueAlternative?.isSome then
      (moved, store)
    else
      followAll setting atEnd moved store
  let reached :=
    if atEnd then
      reached.retain fun configuration =>
        (network.state configuration.state).kind = .ruleStop
    else
      reached
  let (reached, store) :=
    if !fullContext || !reached.anyStopped network then
      addAll reached store finished
    else
      (reached, store)
  (if reached.isEmpty then none else some reached, store)

/-- The guarded alternatives whose conditions hold, lowest first. -/
def holdingAlternatives
    (precedence : Int)
    (guards : List (Condition × Nat)) :
    List Nat :=
  (guards.filter fun (condition, _) => condition.holdsAt precedence).foldl
    (fun alternatives (_, alternative) =>
      ConfigurationSet.insertAlternative alternative alternatives)
    []

/-- Whether a configuration has got out of the decision's rule. -/
def hasLeftRule
    (network : Network)
    (store : StackStore)
    (configuration : Configuration) :
    Bool :=
  0 < configuration.outerReaches ||
    ((network.state configuration.state).kind = .ruleStop &&
      store.reachesBottom configuration.stack)

/-- The lowest alternative of some configurations. -/
def lowestAlternative? (configurations : List Configuration) : Option Nat :=
  (configurations.map Configuration.alternative).min?

/--
The alternative to fall back on when none matches the next token: the lowest one that has got out
of the decision's rule, preferably with a condition that holds.
-/
def finishedAlternative?
    (setting : Setting)
    (set : ConfigurationSet)
    (store : StackStore) :
    Option Nat :=
  let left := set.configurations.toList.filter (hasLeftRule setting.network store)
  let (holding, failing) :=
    left.partition fun configuration =>
      configuration.condition.holdsAt setting.precedence
  (lowestAlternative? holding).or (lowestAlternative? failing)

/-- Whether more tokens cannot separate the alternatives without the real rule invocations. -/
def isConflict
    (network : Network)
    (set : ConfigurationSet) :
    Bool :=
  set.allStopped network ||
    (set.alternativesByPlace.any (fun alternatives => 1 < alternatives.length) &&
      !set.hasStateOfOneAlternative)

/-- All alternatives of a configuration set, ascending. -/
def alternativesOf (set : ConfigurationSet) : List Nat :=
  set.configurations.foldl
    (fun alternatives configuration =>
      ConfigurationSet.insertAlternative configuration.alternative alternatives)
    []

/-- The verdict that a configuration set determines, if it determines one. -/
def verdictOf?
    (network : Network)
    (set : ConfigurationSet) :
    Option Verdict :=
  match set.uniqueAlternative? with
  | some alternative => some (Verdict.ofAlternatives set [alternative] false)
  | none =>
      if isConflict network set then
        some (Verdict.ofAlternatives set (alternativesOf set) true)
      else
        none

/-- The outcome of a verdict on the tokens from `start` on. -/
def outcomeOf
    (precedence : Int)
    (start : Nat)
    (verdict : Verdict) :
    Outcome :=
  match verdict.guards with
  | none =>
      if verdict.needsFullContext then .needsFullContext else .predicted verdict.alternative
  | some guards =>
      match holdingAlternatives precedence guards with
      | [single] => .predicted single
      | [] => if verdict.needsFullContext then .needsFullContext else .noViableAlternative start
      | lowest :: _ =>
          if verdict.needsFullContext then .needsFullContext else .predicted lowest

/-- The memory of one decision while it is being predicted. -/
structure Memory where
  store : StackStore
  automaton : Automaton

/-- The state of the automaton in which predictions start, computed when it is first needed. -/
def startState
    (setting : Setting)
    (memory : Memory) :
    Nat × Memory :=
  match memory.automaton.start? setting.precedence with
  | some number => (number, memory)
  | none =>
      let (set, store) :=
        startSet setting memory.automaton.decisionState StackId.empty false memory.store
      let (set, store) :=
        if memory.automaton.byPrecedence then
          filterByPrecedence setting set store
        else
          (set, store)
      let (number, automaton) := memory.automaton.addState set none
      (number, ⟨store, automaton.setStart setting.precedence number⟩)

/-- Find out where a token leads from a state of the automaton, and remember it. -/
def computeSuccessor
    (setting : Setting)
    (memory : Memory)
    (number : Nat)
    (symbol : Int) :
    Successor × Memory :=
  let (reached, store) :=
    reachSet? setting (memory.automaton.configurationsOf number) symbol false memory.store
  match reached with
  | none => (.dead, ⟨store, memory.automaton.setSuccessor number symbol .dead⟩)
  | some set =>
      let (target, automaton) :=
        memory.automaton.addState set (verdictOf? setting.network set)
      (.state target, ⟨store, automaton.setSuccessor number symbol (.state target)⟩)

/-- Where a token leads from a state of the automaton. -/
def successor
    (setting : Setting)
    (memory : Memory)
    (number : Nat)
    (symbol : Int) :
    Successor × Memory :=
  match memory.automaton.successor? number symbol with
  | some successor => (successor, memory)
  | none => computeSuccessor setting memory number symbol

section Tokens

variable {σ : Type} [TokenSource σ]

/-- A bound on the tokens a prediction can look at: at the end of the input it settles. -/
def lookaheadBound (tokens : TokenStream σ) : Nat :=
  tokens.visibleCount + 3

/-- Follow the automaton from a state over the tokens from `index` on. -/
def followAutomaton
    (setting : Setting)
    (start : Nat) :
    (limit : Nat) → (number index : Nat) → Memory → TokenStream σ →
      Outcome × Memory × TokenStream σ
  | 0, _, _, memory, tokens => (.needsFullContext, memory, tokens)
  | limit + 1, number, index, memory, tokens =>
      let symbol := (tokens.token index).type
      match successor setting memory number symbol with
      | (.dead, memory) =>
          match finishedAlternative? setting (memory.automaton.configurationsOf number)
              memory.store with
          | some alternative => (.predicted alternative, memory, tokens)
          | none => (.noViableAlternative index, memory, tokens)
      | (.state next, memory) =>
          match memory.automaton.verdictOf? next with
          | some verdict => (outcomeOf setting.precedence start verdict, memory, tokens)
          | none =>
              let (index, tokens) :=
                if symbol == endOfInput then (index, tokens) else tokens.nextVisible (index + 1)
              followAutomaton setting start limit next index memory tokens

/-- Predict a decision from the tokens from `start` on, without the real rule invocations. -/
def predictRemembered
    (setting : Setting)
    (memory : Memory)
    (tokens : TokenStream σ)
    (start : Nat) :
    Outcome × Memory × TokenStream σ :=
  let (number, memory) := startState setting memory
  followAutomaton setting start (lookaheadBound tokens) number start memory tokens

/-- Simulate the tokens from `index` on with the real rule invocations. -/
def simulateTokens
    (setting : Setting) :
    (limit : Nat) → (set : ConfigurationSet) → (index : Nat) → StackStore → TokenStream σ →
      Outcome × StackStore × TokenStream σ
  | 0, _, _, store, tokens => (.needsFullContext, store, tokens)
  | limit + 1, set, index, store, tokens =>
      let symbol := (tokens.token index).type
      match reachSet? setting set symbol true store with
      | (none, store) =>
          match finishedAlternative? setting set store with
          | some alternative => (.predicted alternative, store, tokens)
          | none => (.noViableAlternative index, store, tokens)
      | (some reached, store) =>
          match reached.uniqueAlternative?.or (commonLowest? reached.alternativesByPlace) with
          | some alternative => (.predicted alternative, store, tokens)
          | none =>
              let (index, tokens) :=
                if symbol == endOfInput then (index, tokens) else tokens.nextVisible (index + 1)
              simulateTokens setting limit reached index store tokens

/--
Predict a decision from the tokens from `start` on, with the real rule invocations, given by the
states they return to, outermost first.
-/
def predictInContext
    (setting : Setting)
    (decisionState : Nat)
    (returnStates : List Nat)
    (store : StackStore)
    (tokens : TokenStream σ)
    (start : Nat) :
    Outcome × StackStore × TokenStream σ :=
  let (stack, store) := (StackStore.ofReturnStates returnStates).run store
  let (set, store) := startSet setting decisionState stack true store
  simulateTokens setting (lookaheadBound tokens) set start store tokens

end Tokens

end Prediction

end GrammarService
