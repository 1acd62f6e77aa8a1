import Std.Data.HashSet
import GrammarService.Network.Basic

namespace GrammarService

/-!
# Token types that can come next

`nextTokens` collects the token types that can follow a state within its rule, calls included. The
marker `ruleEnd` stands for the end of the rule.
-/

namespace Parser

/-- Stands among token types for the end of the rule. -/
def ruleEnd : Int :=
  -2

/-- Token types found so far, and the places that were looked at. -/
structure Lookout where
  found : IntervalSet
  visited : Std.HashSet (Nat × List Nat)

namespace Lookout

/-- Add token types to those that were found. -/
def addAll
    (lookout : Lookout)
    (types : IntervalSet) :
    Lookout :=
  { lookout with found := lookout.found.union types }

end Lookout

/--
Collect the token types that can follow a state with the given returns, innermost first. A rule
among `called` is not entered again, and no way is followed for more than `limit` steps.
-/
def lookFrom
    (network : Network) :
    (limit : Nat) → (number : Nat) → (returns : List Nat) → (called : List (Option Nat)) →
      Lookout → Lookout
  | 0, _, _, _, lookout => lookout
  | limit + 1, number, returns, called, lookout =>
      if lookout.visited.contains (number, returns) then
        lookout
      else
        let lookout := { lookout with visited := lookout.visited.insert (number, returns) }
        let state := network.state number
        if state.kind = .ruleStop then
          match returns with
          | [] => { lookout with found := lookout.found.add ruleEnd }
          | follow :: outer =>
              lookFrom network limit follow outer (called.filter (· != state.rule)) lookout
        else
          state.edges.foldl
            (fun lookout edge =>
              match edge with
              | .call target _ _ follow =>
                  let rule := (network.state target).rule
                  if called.contains rule then
                    lookout
                  else
                    lookFrom network limit target (follow :: returns) (rule :: called) lookout
              | .wildcard _ =>
                  lookout.addAll (IntervalSet.empty.addRange minTokenType network.maxTokenType)
              | .notSet _ symbols =>
                  lookout.addAll (symbols.complement minTokenType network.maxTokenType)
              | .atom _ label => { lookout with found := lookout.found.add label }
              | .range _ first last =>
                  { lookout with found := lookout.found.addRange first last }
              | .set _ symbols => lookout.addAll symbols
              | free => lookFrom network limit free.target returns called lookout)
            lookout

/-- The token types that can follow a state within its rule. -/
def nextTokens
    (network : Network)
    (number : Nat) :
    IntervalSet :=
  (lookFrom network network.walkBound number [] [] ⟨IntervalSet.empty, ∅⟩).found

end Parser

end GrammarService
