import Mathlib
import GrammarService.Parser.Invoke

namespace GrammarService

/-!
# Caches that predictions lead to

A cache is reachable when it is left behind by some sequence of predictions: at any decision, over
any tokens, from any position, at any precedence and with any rule invocations. What holds of all
reachable caches holds whatever a parser did before.
-/

namespace PredictionCache

/-- The cache once a decision has been predicted with the given memory as the result. -/
def remember
    (cache : PredictionCache)
    (decision : Nat)
    (memory : Prediction.Memory) :
    PredictionCache where
  store := memory.store
  automata := cache.automata.setIfInBounds decision memory.automaton

/-- The caches that some sequence of predictions leaves behind. -/
inductive Reachable (network : Network) : PredictionCache → Prop where
  | initial :
      Reachable network (PredictionCache.initial network)
  | remembered
      {σ : Type}
      [TokenSource σ]
      {cache : PredictionCache}
      {automaton : Automaton}
      (decision start : Nat)
      (precedence : Int)
      (tokens : TokenStream σ)
      (reachable : Reachable network cache)
      (present : cache.automata[decision]? = some automaton) :
      Reachable network
        (cache.remember decision
          (Prediction.predictRemembered
            (Parser.settingOf network automaton precedence)
            ⟨cache.store, automaton⟩ tokens start).2.1)
  | inContext
      {σ : Type}
      [TokenSource σ]
      {cache : PredictionCache}
      {automaton : Automaton}
      (decision start : Nat)
      (precedence : Int)
      (returnStates : List Nat)
      (tokens : TokenStream σ)
      (reachable : Reachable network cache)
      (present : cache.automata[decision]? = some automaton) :
      Reachable network
        { cache with
          store :=
            (Prediction.predictInContext
              (Parser.settingOf network automaton precedence)
              automaton.decisionState returnStates
              cache.store tokens start).2.1 }

namespace Reachable

/--
What holds of the initial automata and is kept by every remembered prediction holds of the automata
of all reachable caches. A prediction in context leaves the automata alone.
-/
theorem automata_induction
    {network : Network}
    (property : Automaton → Prop)
    (initially :
      ∀ decisionState, property (Automaton.initial network decisionState))
    (kept :
      ∀ {σ : Type} [TokenSource σ] (store : StackStore) (automaton : Automaton)
        (precedence : Int) (tokens : TokenStream σ) (start : Nat),
        property automaton →
        property
          (Prediction.predictRemembered
            (Parser.settingOf network automaton precedence)
            ⟨store, automaton⟩ tokens start).2.1.automaton)
    {cache : PredictionCache}
    (reachable : Reachable network cache)
    {decision : Nat}
    {automaton : Automaton}
    (present : cache.automata[decision]? = some automaton) :
    property automaton := by
  induction reachable generalizing decision automaton with
  | initial =>
      simp only [PredictionCache.initial, Array.getElem?_map,
        Option.map_eq_some_iff] at present
      obtain ⟨decisionState, _, rfl⟩ := present
      exact initially decisionState
  | @remembered σ _ cache predicted which start precedence tokens _ wasPresent
      inductionHypothesis =>
      simp only [remember, Array.getElem?_setIfInBounds] at present
      split at present
      · split at present
        · cases present
          exact kept cache.store predicted precedence tokens start
            (inductionHypothesis wasPresent)
        · cases present
      · exact inductionHypothesis present
  | inContext _ _ _ _ _ _ _ inductionHypothesis =>
      exact inductionHypothesis present

end Reachable

end PredictionCache

end GrammarService
