import GrammarService.Prediction.Configuration

namespace GrammarService

/-!
# Remembered predictions

Each decision has an automaton whose states are the configuration sets that prediction has come
to, and whose edges are the tokens that led from one to the next. Later predictions follow its
edges where they can and simulate the network only where they cannot.
-/

/-- What a state of an automaton says about the decision. -/
structure Verdict where
  /-- The lowest alternative that is left. -/
  alternative : Nat
  /-- The condition of each alternative that is left, if any of them has one. -/
  guards : Option (List (Condition × Nat))
  /-- Whether only the real rule invocations can tell the alternatives apart. -/
  needsFullContext : Bool
  deriving Repr, DecidableEq

namespace Verdict

/-- The disjunction of the conditions of an alternative, or none if it has no configuration. -/
def guardOf?
    (set : ConfigurationSet)
    (alternative : Nat) :
    Option Condition :=
  set.configurations.foldl
    (fun guarding configuration =>
      if configuration.alternative = alternative then
        match guarding with
        | none => some configuration.condition
        | some guard => some (guard.either configuration.condition)
      else
        guarding)
    none

/-- The verdict for some alternatives, ascending, of a configuration set. -/
def ofAlternatives
    (set : ConfigurationSet)
    (alternatives : List Nat)
    (needsFullContext : Bool) :
    Verdict :=
  let guards := alternatives.map fun alternative =>
    ((guardOf? set alternative).getD .always, alternative)
  let guarded := set.hasConditions && guards.any fun guard => guard.1 ≠ .always
  { alternative := alternatives.headD 0
    guards := if guarded then some guards else none
    needsFullContext := needsFullContext }

end Verdict

/-- Where a token leads from a state of an automaton. -/
inductive Successor
  | state (number : Nat)
  /-- No alternative can go on with the token. -/
  | dead
  deriving Repr, DecidableEq

/-- A state of an automaton. -/
structure AutomatonState where
  configurations : ConfigurationSet
  successors : Std.HashMap Int Successor
  /-- Present where the decision can be made. -/
  verdict : Option Verdict

/-- What was predicted at one decision. -/
structure Automaton where
  decisionState : Nat
  /-- Whether the decision is about continuing a precedence loop; it then starts differently at
  each precedence of the rule invocation. -/
  byPrecedence : Bool
  states : Array AutomatonState
  index : Std.HashMap (List Configuration.Key) Nat
  start : Option Nat
  startsByPrecedence : Std.HashMap Int Nat

namespace Automaton

/-- The automaton of a decision that was not predicted yet. -/
def initial
    (network : Network)
    (decisionState : Nat) :
    Automaton :=
  let state := network.state decisionState
  { decisionState := decisionState
    byPrecedence := state.kind = .starLoopEntry && state.precedenceDecision
    states := #[]
    index := ∅
    start := none
    startsByPrecedence := ∅ }

/-- The state that predictions at a precedence start in. -/
def start?
    (automaton : Automaton)
    (precedence : Int) :
    Option Nat :=
  if automaton.byPrecedence then
    automaton.startsByPrecedence[precedence]?
  else
    automaton.start

/-- Remember the state that predictions at a precedence start in. -/
def setStart
    (automaton : Automaton)
    (precedence : Int)
    (number : Nat) :
    Automaton :=
  if automaton.byPrecedence then
    { automaton with
      startsByPrecedence := automaton.startsByPrecedence.insert precedence number }
  else
    { automaton with start := some number }

/-- The configurations of a state. -/
def configurationsOf
    (automaton : Automaton)
    (number : Nat) :
    ConfigurationSet :=
  match automaton.states[number]? with
  | some state => state.configurations
  | none => ConfigurationSet.empty false

/-- The verdict of a state. -/
def verdictOf?
    (automaton : Automaton)
    (number : Nat) :
    Option Verdict :=
  match automaton.states[number]? with
  | some state => state.verdict
  | none => none

/-- Where a token leads from a state, if that was found out before. -/
def successor?
    (automaton : Automaton)
    (number : Nat)
    (symbol : Int) :
    Option Successor :=
  match automaton.states[number]? with
  | some state => state.successors[symbol]?
  | none => none

/-- Remember where a token leads from a state. -/
def setSuccessor
    (automaton : Automaton)
    (number : Nat)
    (symbol : Int)
    (successor : Successor) :
    Automaton :=
  { automaton with
    states := automaton.states.modify number fun state =>
      { state with successors := state.successors.insert symbol successor } }

/-- The number of the state with the given configurations, which is added if there is none. -/
def addState
    (automaton : Automaton)
    (configurations : ConfigurationSet)
    (verdict : Option Verdict) :
    Nat × Automaton :=
  let keys := configurations.keys
  match automaton.index[keys]? with
  | some number => (number, automaton)
  | none =>
      let number := automaton.states.size
      (number,
        { automaton with
          states := automaton.states.push ⟨configurations, ∅, verdict⟩
          index := automaton.index.insert keys number })

end Automaton

/-- What prediction remembers: an automaton for each decision, and the stacks they refer to. -/
structure PredictionCache where
  store : StackStore
  automata : Array Automaton

namespace PredictionCache

/-- A cache without predictions. -/
def initial (network : Network) : PredictionCache where
  store := StackStore.initial
  automata := network.decisions.map (Automaton.initial network)

end PredictionCache

end GrammarService
