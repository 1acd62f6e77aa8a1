import Std.Data.HashSet
import GrammarService.Network.Basic

namespace GrammarService

/-!
# Threads of a lexer simulation

A lexer follows all ways through its network at once. A `Thread` is one of them: a state together
with the states to go on at when the rules called so far have returned. `close` follows free
edges, so that the threads it keeps all wait for a symbol or have finished a token.

The order in which threads are kept is their priority, and no thread is kept twice.
-/

namespace Lexer

/-- One way through a lexer network. -/
structure Thread where
  state : Nat
  /-- The token rule the thread is in, by its place among the mode's edges, counted from 1. -/
  alternative : Nat
  /-- Where to go on when the rules called so far return, innermost first. -/
  returns : List Nat
  /-- The lexer actions passed so far, in order. -/
  actions : List Nat
  /-- Whether the thread went through a decision that prefers to end early. -/
  passedNonGreedy : Bool
  deriving Repr, DecidableEq, Hashable, Inhabited

namespace Thread

/-- The thread one free or consuming step further. -/
def moveTo
    (thread : Thread)
    (network : Network)
    (target : Nat) :
    Thread :=
  let state := network.state target
  { thread with
    state := target
    passedNonGreedy :=
      thread.passedNonGreedy || (state.kind.isDecision && state.nonGreedy) }

/-- The thread behind an action; only the token's own rule runs actions, not a called one. -/
def passAction
    (thread : Thread)
    (network : Network)
    (target : Nat)
    (action : Int) :
    Thread :=
  let moved := thread.moveTo network target
  if thread.returns.isEmpty && 0 ≤ action && action < network.lexerActions.size then
    { moved with actions := thread.actions ++ [action.toNat] }
  else
    moved

/-- The thread behind an edge that needs no symbol; at the end of the input, edges that list the
end among their symbols need none. -/
def free?
    (thread : Thread)
    (network : Network)
    (endIsFree : Bool)
    (edge : Edge) :
    Option Thread :=
  match edge with
  | .call target _ _ follow =>
      let moved := thread.moveTo network target
      some { moved with returns := follow :: thread.returns }
  | .epsilon target _ => some (thread.moveTo network target)
  | .predicate target _ _ _ => some (thread.moveTo network target)
  | .action target _ action _ => some (thread.passAction network target action)
  | .atom target _ | .range target _ _ | .set target _ =>
      if endIsFree && edge.consumes endOfInput 0 maxCharacter then
        some (thread.moveTo network target)
      else
        none
  | _ => none

end Thread

/-- Threads in the order in which they were kept, none of them twice. -/
structure ThreadSet where
  threads : Array Thread
  known : Std.HashSet Thread

namespace ThreadSet

/-- The set without threads. -/
def empty : ThreadSet where
  threads := #[]
  known := ∅

/-- Keep a thread behind the others, unless it is kept already. -/
def insert
    (set : ThreadSet)
    (thread : Thread) :
    ThreadSet :=
  if set.known.contains thread then
    set
  else
    ⟨set.threads.push thread, set.known.insert thread⟩

/-- Whether no thread is kept. -/
def isEmpty (set : ThreadSet) : Bool :=
  set.threads.isEmpty

end ThreadSet

/-- Where following free edges has got to. -/
structure Closing where
  kept : ThreadSet
  visited : Std.HashSet Thread
  /-- Whether a thread has finished its token. -/
  accepted : Bool

/--
Follow the free edges from a thread, in order and depth first, and keep every thread that waits
for a symbol or has finished its token.

A thread is followed once. When a token has been accepted, threads that passed a decision that
prefers to end early are no longer kept. No path is followed for more than `depth` steps.
-/
def close
    (network : Network)
    (endIsFree : Bool) :
    (depth : Nat) → Thread → Closing → Closing
  | 0, _, closing => closing
  | depth + 1, thread, closing =>
      if closing.visited.contains thread then
        closing
      else
        let closing := { closing with visited := closing.visited.insert thread }
        let state := network.state thread.state
        if state.kind = .ruleStop then
          match thread.returns with
          | [] =>
              { closing with kept := closing.kept.insert thread, accepted := true }
          | follow :: outer =>
              close network endIsFree depth
                { thread with state := follow, returns := outer } closing
        else
          let keeps :=
            !state.epsilonOnly && !(closing.accepted && thread.passedNonGreedy)
          let closing :=
            if keeps then { closing with kept := closing.kept.insert thread } else closing
          state.edges.foldl
            (fun closing edge =>
              match thread.free? network endIsFree edge with
              | some next => close network endIsFree depth next closing
              | none => closing)
            closing

/--
A bound on the length of a path of free edges that returns from no rule but those it called, as
long as it comes to no state twice with the same returns and calls no rule inside itself.
-/
def pathBound (network : Network) : Nat :=
  Network.powerBound (network.states.size + 2) (network.states.size + 1)

/-- A bound on the length of a path of free edges from a thread: it may return from every rule
called so far, with a path of bounded length before and after each return. -/
def closeDepth
    (bound : Nat)
    (thread : Thread) :
    Nat :=
  bound * (thread.returns.length + 1)

end Lexer

end GrammarService
