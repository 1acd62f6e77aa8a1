import Std.Data.HashSet
import GrammarService.Prediction.Automaton

namespace GrammarService

/-!
# Following free edges

From a configuration, prediction follows every way that consumes no token: along free edges, into
rules, and out of them along the configuration's stack. What it reaches where a token is needed
goes into a configuration set.

A rule that ends with an empty stack returns to wherever the rule is called from, unless the stack
is that of the real rule invocations: then the rule's end is kept itself.
-/

namespace Prediction

/-- What a prediction depends on besides tokens and memory. -/
structure Setting where
  network : Network
  /-- The rule of a decision that is about continuing a precedence loop. -/
  precedenceRule : Option Nat
  /-- The precedence of the rule invocation that the decision is made in. -/
  precedence : Int

/-- A configuration about to be followed. -/
structure Visit where
  configuration : Configuration
  /-- Whether conditions met on the way still count. -/
  collects : Bool
  /-- How many rules were entered and not left again; below zero outside the decision's rule. -/
  depth : Int
  /-- Whether to give up when the same configuration was followed before. -/
  checked : Bool
  deriving Repr

/-- Where following free edges has got to. -/
structure Search where
  store : StackStore
  found : ConfigurationSet
  visited : Std.HashSet Configuration.Key

namespace Search

/-- Add a configuration to those that were found. -/
def add
    (search : Search)
    (configuration : Configuration) :
    Search :=
  let (found, store) := (search.found.add configuration).run search.store
  { search with found := found, store := store }

/-- Add several configurations to those that were found, in order. -/
def addAll
    (search : Search)
    (configurations : List Configuration) :
    Search :=
  configurations.foldl add search

end Search

/--
The configuration behind a condition. In full context the condition is checked at once, else it is
noted.
-/
def passCondition?
    (setting : Setting)
    (fullContext : Bool)
    (configuration : Configuration)
    (target : Nat)
    (condition : Condition) :
    Option Configuration :=
  if fullContext then
    if condition.holdsAt setting.precedence then
      some { configuration with state := target }
    else
      none
  else
    some { configuration with
      state := target
      condition := configuration.condition.both condition }

/--
The configuration behind an edge that needs no token, except for calls. Where the end of the input
is free, edges that list it among their tokens need none.
-/
def passEdge?
    (setting : Setting)
    (fullContext endIsFree collects inContext : Bool)
    (configuration : Configuration)
    (edge : Edge) :
    Option Configuration :=
  let moved := some { configuration with state := edge.target }
  match edge with
  | .precedence target highest =>
      if collects && inContext then
        passCondition? setting fullContext configuration target (.precedence highest)
      else
        moved
  | .predicate target rule index contextDependent =>
      if collects && (!contextDependent || inContext) then
        passCondition? setting fullContext configuration target
          (.predicate rule index contextDependent)
      else
        moved
  | .epsilon .. | .action .. => moved
  | .atom .. | .range .. | .set .. =>
      if endIsFree && edge.consumes endOfInput 0 1 then moved else none
  | _ => none

/-- Whether a return state leads straight back to a precedence loop that ends with `blockEnd`. -/
def returnsToLoop
    (network : Network)
    (loop : Network.State)
    (blockEnd returnState : Nat) :
    Bool :=
  let returning := network.state returnState
  match returning.edges with
  | [only] =>
      let target := network.state only.target
      let targetLoopsBack :=
        match target.edges with
        | [back] => back.isEpsilon && back.target == loop.number
        | _ => false
      only.isEpsilon &&
        ((returning.kind = .blockEnd && target.number == loop.number) ||
          returnState == blockEnd ||
          target.number == blockEnd ||
          (target.kind = .blockEnd && targetLoopsBack))
  | _ => false

/--
Whether following another round of a precedence loop can make no difference for a configuration.

That is so when every rule it can return to is the same left-recursive rule at the end of a round:
the outer invocation will make the same choice.
-/
def roundIsRedundant
    (network : Network)
    (store : StackStore)
    (configuration : Configuration) :
    Bool :=
  let loop := network.state configuration.state
  if loop.kind = .starLoopEntry && loop.precedenceDecision &&
      configuration.stack ≠ StackId.empty && !store.reachesBottom configuration.stack then
    let returnStates := (store.entries configuration.stack).filterMap StackEntry.returnState
    match loop.edges.head?.bind fun edge => (network.state edge.target).endState with
    | none => false
    | some blockEnd =>
        returnStates.all fun returnState =>
          (network.state returnState).rule == loop.rule &&
            returnsToLoop network loop blockEnd returnState
  else
    false

/-- Whether returning along an edge leaves the precedence loop that is being decided. -/
def leavesDecidedLoop
    (setting : Setting)
    (edge : Edge) :
    Bool :=
  match setting.precedenceRule, edge with
  | some rule, .epsilon _ (some returning) => rule == returning
  | _, _ => false

/-- The visit of a configuration that an edge leads to from the one being followed. -/
def visitBehind
    (setting : Setting)
    (visit : Visit)
    (state : Network.State)
    (edge : Edge)
    (collects : Bool)
    (behind : Configuration) :
    Visit :=
  if state.kind = .ruleStop then
    { configuration :=
        { behind with
          filterSuppressed := behind.filterSuppressed || leavesDecidedLoop setting edge
          outerReaches := behind.outerReaches + 1 }
      collects := collects
      depth := visit.depth - 1
      checked := true }
  else
    let entersRule :=
      match edge with
      | .call .. => true
      | _ => false
    { configuration := behind
      collects := collects
      depth := if entersRule && 0 ≤ visit.depth then visit.depth + 1 else visit.depth
      checked := !edge.isEpsilon }

/-- The visits that the edges leaving a configuration lead to, in order. -/
def visitsBehind
    (setting : Setting)
    (fullContext endIsFree : Bool)
    (visit : Visit)
    (state : Network.State) :
    List Edge → StateM StackStore (List Visit)
  | [] => return []
  | edge :: edges => do
      let isAction :=
        match edge with
        | .action .. => true
        | _ => false
      let collects := visit.collects && !isAction
      let behind? ←
        match edge with
        | .call target _ _ follow => do
            let stack ← StackStore.push visit.configuration.stack follow
            pure (some { visit.configuration with state := target, stack := stack })
        | _ =>
            pure (passEdge? setting fullContext endIsFree collects (visit.depth == 0)
              visit.configuration edge)
      let rest ← visitsBehind setting fullContext endIsFree visit state edges
      match behind? with
      | none => return rest
      | some behind => return visitBehind setting visit state edge collects behind :: rest

/-- Keep a configuration if its state needs a token, and find the visits its edges lead to. -/
def expand
    (setting : Setting)
    (endIsFree : Bool)
    (visit : Visit)
    (search : Search) :
    List Visit × Search :=
  let network := setting.network
  let state := network.state visit.configuration.state
  let search := if state.epsilonOnly then search else search.add visit.configuration
  let edges :=
    if roundIsRedundant network search.store visit.configuration then
      state.edges.drop 1
    else
      state.edges
  let (visits, store) :=
    (visitsBehind setting search.found.fullContext endIsFree visit state edges).run search.store
  (visits, { search with store := store })

/--
Follow the free edges from a configuration, in order and depth first, for ways of at most `limit`
steps.
-/
def follow
    (setting : Setting)
    (endIsFree : Bool) :
    (limit : Nat) → Visit → Search → Search
  | 0, _, search => search
  | limit + 1, visit, search =>
      let configuration := visit.configuration
      if visit.checked && search.visited.contains configuration.key then
        search
      else
        let search :=
          if visit.checked then
            { search with visited := search.visited.insert configuration.key }
          else
            search
        let fullContext := search.found.fullContext
        let followEdges (search : Search) : Search :=
          let (visits, search) := expand setting endIsFree visit search
          visits.foldl (fun search visit => follow setting endIsFree limit visit search) search
        let stopped := (setting.network.state configuration.state).kind = .ruleStop
        if !stopped || (configuration.stack = StackId.empty && !fullContext) then
          followEdges search
        else if configuration.stack = StackId.empty then
          search.add configuration
        else
          (search.store.entries configuration.stack).foldl
            (fun search entry =>
              match entry.returnState with
              | some returnState =>
                  follow setting endIsFree limit
                    { configuration :=
                        { configuration with
                          state := returnState
                          stack := entry.below
                          filterSuppressed := false }
                      collects := visit.collects
                      depth := visit.depth - 1
                      checked := false }
                    search
              | none =>
                  if fullContext then
                    search.add { configuration with stack := StackId.empty }
                  else
                    followEdges search)
            search

/-- The number of conditions that a network can put on an alternative. -/
def conditionCount (network : Network) : Nat :=
  network.states.foldl
    (fun count state =>
      count + (state.edges.filter fun edge =>
        match edge with
        | .predicate .. | .precedence .. => true
        | _ => false).length)
    0

/--
A bound on the configurations that a way along free edges can come to in a network without loops:
so many places, on top of each of the stacks below the first one, with so many conditions.
-/
def configurationBound
    (network : Network)
    (stack : StackId) :
    Nat :=
  network.walkBound * (stack + 1) * Nat.pow 2 (conditionCount network + 2)

/--
A bound on the length of the ways that `follow` takes from a stack through a network without loops:
between two visits that are checked no configuration comes twice, and no configuration is checked
twice. Stacks below a stack have smaller numbers.
-/
def followLimit
    (network : Network)
    (stack : StackId) :
    Nat :=
  let bound := configurationBound network stack
  (bound + 1) * (bound + 1)

end Prediction

end GrammarService
