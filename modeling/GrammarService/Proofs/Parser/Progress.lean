import GrammarService.Proofs.Parser.Reading
import GrammarService.Proofs.Prediction.SingleToken

namespace GrammarService

/-!
# Walks that go on

The lemmas about moves say what a step has done when it has succeeded. Here it is the other way
round: from what is known of the state and the current token, a step is seen to succeed, and steps
are put together to stretches of a walk.
-/

namespace Parser

variable {σ : Type} {run middle after : Run σ}

section Predicting

/-- Every decision of a list has an automaton that recalls its settled cases, without a stack. -/
structure Remembers
    (network : Network)
    (plan : List (Nat × List Prediction.Case))
    (cache : PredictionCache) :
    Prop where
  store : cache.store = StackStore.initial
  recalls :
    ∀ {decision decisionState : Nat} {cases : List Prediction.Case},
      plan[decision]? = some (decisionState, cases) →
        ∃ automaton,
          cache.automata[decision]? = some automaton ∧
            Prediction.Recalls network decisionState cases automaton

/-- A new cache remembers nothing wrong. -/
theorem Remembers.ofInitial
    {network : Network}
    {plan : List (Nat × List Prediction.Case)}
    (decisions : network.decisions.toList = plan.map Prod.fst) :
    Remembers network plan (PredictionCache.initial network) where
  store := rfl
  recalls := by
    intro decision decisionState cases isPlanned
    have isDecision : network.decisions[decision]? = some decisionState := by
      rw [← Array.getElem?_toList, decisions, List.getElem?_map, isPlanned]
      rfl
    exact ⟨Automaton.initial network decisionState,
      by simp [PredictionCache.initial, isDecision],
      .ofInitial network decisionState cases⟩

variable [TokenSource σ]

/-- A settled case is predicted by its alternative. -/
theorem outcome_predict
    {network : Network}
    {plan : List (Nat × List Prediction.Case)}
    {decision decisionState : Nat}
    {cases : List Prediction.Case}
    {state : Network.State}
    {case : Prediction.Case}
    (remembers : Remembers network plan run.cache)
    (isPlanned : plan[decision]? = some (decisionState, cases))
    (settled : Prediction.Settled network decisionState cases)
    (decides : state.decision = some decision)
    (isCase : case ∈ cases)
    (precedence : run.precedence = case.precedence)
    (type : run.current.type = case.type) :
    ∃ cache,
      outcome (predict network state) run =
          (.ok case.alternative, { run with cache := cache }) ∧
        Remembers network plan cache := by
  obtain ⟨automaton, isAutomaton, recalls⟩ := remembers.recalls isPlanned
  obtain ⟨later, predicted, recallsLater⟩ :=
    Prediction.predictRemembered_of_recalls settled recalls isCase type
  have sameSetting :
      settingOf network automaton run.precedence =
        Prediction.settingAt network decisionState case.precedence := by
    simp only [settingOf, Prediction.settingAt, recalls.sameKind, recalls.sameState, precedence]
    rfl
  refine ⟨⟨StackStore.initial, run.cache.automata.setIfInBounds decision later⟩, ?_, rfl, ?_⟩
  · have remembered :
        outcome (predictRemembered network decision) run =
          (.ok (.predicted case.alternative),
            { run with
              cache :=
                ⟨StackStore.initial, run.cache.automata.setIfInBounds decision later⟩ }) := by
      simp [predictRemembered, automatonOf, outcome_bind, require, isAutomaton, sameSetting,
        remembers.store, predicted]
    simp [predict, outcome_bind, require, decides, remembered]
  · intro other otherState otherCases isOther
    by_cases same : decision = other
    · subst same
      rw [isPlanned, Option.some.injEq, Prod.mk.injEq] at isOther
      obtain ⟨rfl, rfl⟩ := isOther
      have inBounds := (Array.getElem?_eq_some_iff.mp isAutomaton).1
      exact ⟨later, by simp [inBounds], recallsLater⟩
    · obtain ⟨found, isFound, recallsFound⟩ := remembers.recalls isOther
      exact ⟨found, by simpa [Array.getElem?_setIfInBounds, same] using isFound, recallsFound⟩

/-- A token that can come next is no error. -/
theorem outcome_checkCurrent
    {grammar : ParserGrammar}
    (expected :
      ((nextTokens grammar.network run.state).contains run.current.type ||
        (nextTokens grammar.network run.state).contains ruleEnd) = true) :
    outcome (checkCurrent grammar) run = (.ok (), run) := by
  simp only [checkCurrent, outcome_bind, outcome_get, expected, ↓reduceIte, outcome_pure]

end Predicting

variable [TokenSource σ]

/-- The visible tokens that a walk has still to read. -/
def Ahead
    (visible : List Token)
    (run : Run σ)
    (rest : List Token) :
    Prop :=
  ∃ read, HasRead visible run read ∧ read ++ rest = visible

namespace Ahead

variable {visible rest : List Token} {token : Token}

/-- All visible tokens are ahead of a walk that begins. -/
theorem start
    {tokens : TokenStream σ}
    (sound : tokens.Sound)
    (cache : PredictionCache) :
    Ahead tokens.visible (Run.start tokens cache) tokens.visible :=
  ⟨[], HasRead.start sound cache, rfl⟩

/-- What is ahead shows in the tokens and the position only. -/
theorem congr
    (ahead : Ahead visible run rest)
    (tokens : after.tokens = run.tokens)
    (position : after.position = run.position) :
    Ahead visible after rest := by
  obtain ⟨read, hasRead, isSplit⟩ := ahead
  exact ⟨read, hasRead.congr tokens position, isSplit⟩

/-- The current token is the first one ahead. -/
theorem current
    (ahead : Ahead visible run (token :: rest)) :
    run.current = token := by
  obtain ⟨read, hasRead, rfl⟩ := ahead
  have isNext :=
    hasRead.consumed.getElem?_read
      (show read.length < (read ++ [run.current]).length by simp)
  have isFirst : min read.length ((read ++ token :: rest).length - 1) = read.length := by
    simp
  rw [isFirst] at isNext
  simpa using isNext

/-- The current token is no longer ahead when it was consumed. -/
theorem consumed
    (ahead : Ahead visible run (token :: rest)) :
    Ahead visible run.consumed rest := by
  have current := ahead.current
  obtain ⟨read, hasRead, isSplit⟩ := ahead
  refine ⟨read ++ [run.current], hasRead.consumed, ?_⟩
  rw [current, ← isSplit, List.append_assoc]
  rfl

end Ahead

namespace Advances

variable {grammar : ParserGrammar} {count : Nat}

/-- A walk that comes to the end of its first rule succeeds. -/
theorem outcome_walk
    (advances : Advances grammar count run after)
    (notIdle : after.idleSteps < idleLimit grammar.network)
    (ended : after.hasEnded grammar.network = true) :
    outcome (walk grammar) run = (.ok (), after.counted) := by
  refine ends_walk_iff.mpr ?_
  rw [advances.walk?_eq]
  exact walk?_of_ended (endsWalk_iff.mpr ⟨notIdle, ended, rfl⟩)

/-- A step that succeeds is one of a walk, unless the walk is idle or at its end. -/
theorem one
    (notIdle : run.idleSteps < idleLimit grammar.network)
    (notEnded : run.hasEnded grammar.network = false)
    (stepped : outcome (stepOnce grammar) run.counted = (.ok (), after)) :
    Advances grammar 1 run after :=
  .step (goesOn_iff.mpr ⟨notIdle, notEnded, stepped⟩) .stay

section Inside

variable
  (notIdle : run.idleSteps < idleLimit grammar.network)
  (inside : (grammar.network.state run.state).kind ≠ .ruleStop)

include notIdle inside

/-- A state inside a rule is left by leaving the state. -/
theorem leaveState
    (leaves : outcome (Parser.leaveState grammar) run.counted = (.ok (), after)) :
    Advances grammar 1 run after := by
  have inside' : (grammar.network.state run.counted.state).kind ≠ .ruleStop := inside
  refine one notIdle (by simp [Run.hasEnded, inside]) ?_
  simp only [stepOnce, outcome_bind, outcome_get, inside', ↓reduceIte]
  exact leaves

/-- The only edge of a state is crossed. -/
theorem only
    {edge : Edge}
    (single : (grammar.network.state run.state).edges = [edge])
    (crosses :
      outcome (crossEdge grammar (grammar.network.state run.state) edge) run.counted =
        (.ok (), after)) :
    Advances grammar 1 run { after with state := edge.target } := by
  refine leaveState notIdle inside ?_
  have single' : (grammar.network.state run.counted.state).edges = [edge] := single
  have crosses' :
      outcome (crossEdge grammar (grammar.network.state run.counted.state) edge) run.counted =
        (.ok (), after) :=
    crosses
  simp only [Parser.leaveState, outcome_bind, outcome_get, single', List.length_singleton,
    Nat.lt_irrefl, ↓reduceIte, outcome_pure, Nat.sub_self, List.getElem?_cons_zero, require,
    crosses', outcome_modify]

/-- Of several edges the predicted one is crossed. -/
theorem predicted
    {alternative : Nat}
    {edge : Edge}
    (several : 1 < (grammar.network.state run.state).edges.length)
    (expected :
      ((nextTokens grammar.network run.state).contains run.current.type ||
        (nextTokens grammar.network run.state).contains ruleEnd) = true)
    (predicts :
      outcome (predict grammar.network (grammar.network.state run.state)) run.counted =
        (.ok alternative, middle))
    (isEdge : (grammar.network.state run.state).edges[alternative - 1]? = some edge)
    (crosses :
      outcome (crossEdge grammar (grammar.network.state run.state) edge) middle =
        (.ok (), after)) :
    Advances grammar 1 run { after with state := edge.target } := by
  refine leaveState notIdle inside ?_
  have checked : outcome (checkCurrent grammar) run.counted = (.ok (), run.counted) :=
    outcome_checkCurrent expected
  have several' : 1 < (grammar.network.state run.counted.state).edges.length := several
  have predicts' :
      outcome (predict grammar.network (grammar.network.state run.counted.state)) run.counted =
        (.ok alternative, middle) :=
    predicts
  have isEdge' :
      (grammar.network.state run.counted.state).edges[alternative - 1]? = some edge :=
    isEdge
  have crosses' :
      outcome (crossEdge grammar (grammar.network.state run.counted.state) edge) middle =
        (.ok (), after) :=
    crosses
  simp only [Parser.leaveState, outcome_bind, outcome_get, several', ↓reduceIte, checked,
    predicts', isEdge', require, outcome_pure, crosses', outcome_modify]

/-- A free edge is followed, where no other round of a precedence loop can begin. -/
theorem free
    {target : Nat}
    (notEntry : (grammar.network.state run.state).kind ≠ .starLoopEntry)
    (single : (grammar.network.state run.state).edges = [.epsilon target none]) :
    Advances grammar 1 run { run.counted with state := target } := by
  refine only notIdle inside single ?_
  simp [crossEdge, startRound, notEntry]

/-- The token that an edge asks for is consumed. -/
theorem token
    {target : Nat}
    (single : (grammar.network.state run.state).edges = [.atom target run.current.type]) :
    Advances grammar 1 run { run.consumed with state := target } := by
  refine only notIdle inside single ?_
  have current : run.counted.current.type = run.current.type := rfl
  simp only [crossEdge, outcome_bind, outcome_get, current, ↓reduceIte, outcome_consume]
  rfl

/-- An operator that binds tightly enough is admitted. -/
theorem precedence
    {target : Nat}
    {highest : Int}
    (single : (grammar.network.state run.state).edges = [.precedence target highest])
    (admitted : run.precedence ≤ highest) :
    Advances grammar 1 run { run.counted with state := target } := by
  refine only notIdle inside single ?_
  have admitted' : ¬ highest < run.counted.precedence := by
    change ¬ highest < run.precedence
    omega
  simp only [crossEdge, checkPrecedence, outcome_bind, outcome_get, admitted', ↓reduceIte,
    outcome_pure]

/-- A rule is invoked. -/
theorem call
    {target rule follow : Nat}
    {precedence : Int}
    (single :
      (grammar.network.state run.state).edges = [.call target rule precedence follow]) :
    Advances grammar 1 run
      { run.counted.invoking grammar.network (grammar.network.state run.state).number target rule
          precedence with
        state := target } :=
  only notIdle inside single rfl

end Inside

/-- A rule that is not left-recursive is left for the place behind its invocation. -/
theorem leave
    {parent caller follow : Nat}
    (notIdle : run.idleSteps < idleLimit grammar.network)
    (stopped : (grammar.network.state run.state).kind = .ruleStop)
    (plain :
      (grammar.network.state run.state).rule.any grammar.network.isLeftRecursive = false)
    (linked : run.link run.context = ⟨some parent, some caller⟩)
    (goesOn : grammar.network.followOf? caller = some follow) :
    Advances grammar 1 run { run.counted with context := parent, state := follow } := by
  have stopped' : (grammar.network.state run.counted.state).kind = .ruleStop := stopped
  have plain' :
      (grammar.network.state run.counted.state).rule.any grammar.network.isLeftRecursive =
        false :=
    plain
  have linked' : run.counted.link run.counted.context = ⟨some parent, some caller⟩ := linked
  refine one notIdle (by simp [Run.hasEnded, linked]) ?_
  simp [stepOnce, leaveRule, outcome_bind, stopped', plain', linked', require, goesOn]

/-- A left-recursive rule is left for the place behind its invocation, and its tree is attached. -/
theorem leaveRecursion
    {outer : Link}
    {recursions : List Link}
    {caller follow : Nat}
    (notIdle : run.idleSteps < idleLimit grammar.network)
    (stopped : (grammar.network.state run.state).kind = .ruleStop)
    (recursive :
      (grammar.network.state run.state).rule.any grammar.network.isLeftRecursive = true)
    (notEnded : (run.link run.context).caller ≠ none)
    (innermost : run.recursions = outer :: recursions)
    (linked : outer.caller = some caller)
    (goesOn : grammar.network.followOf? caller = some follow) :
    Advances grammar 1 run
      { { run.counted with recursions := recursions }.leaveRecursion outer.parent with
        state := follow } := by
  have stopped' : (grammar.network.state run.counted.state).kind = .ruleStop := stopped
  have recursive' :
      (grammar.network.state run.counted.state).rule.any grammar.network.isLeftRecursive = true :=
    recursive
  have innermost' : run.counted.recursions = outer :: recursions := innermost
  have isCalled : (run.link run.context).caller.isNone = false := by
    simpa [Option.isNone_eq_false_iff, Option.isSome_iff_ne_none] using notEnded
  refine one notIdle (by simp [Run.hasEnded, isCalled]) ?_
  simp [stepOnce, Parser.leaveRule, outcome_bind, stopped', recursive', innermost', require, linked,
    goesOn]

/-- A rule is parsed if its walk comes to its end. -/
theorem outcome_parseRule
    {rule : Nat}
    {tokens : TokenStream σ}
    {cache : PredictionCache}
    (plain : grammar.network.isLeftRecursive rule = false)
    (advances :
      Advances grammar count
        (((Run.start tokens cache).addContext ⟨none, none⟩ rule).enterRule 0
          (grammar.network.startOf rule))
        after)
    (notIdle : after.idleSteps < idleLimit grammar.network)
    (ended : after.hasEnded grammar.network = true) :
    outcome (parseRule grammar rule) (Run.start tokens cache) =
      (.ok after.context, after.counted) := by
  have walks := advances.outcome_walk notIdle ended
  simp only [Network.isLeftRecursive] at plain
  simp only [parseRule, plain, Bool.false_eq_true, if_false, outcome_bind, outcome_modify]
  rw [← Network.startOf]
  simp only [walks, outcome_get, outcome_pure]
  rfl

end Advances

end Parser

end GrammarService
