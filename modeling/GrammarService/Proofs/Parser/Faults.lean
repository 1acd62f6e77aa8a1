import GrammarService.Proofs.Parser.Invocations
import GrammarService.Proofs.Parser.Repeating
import GrammarService.Proofs.Prediction.Alternatives

namespace GrammarService

/-!
# What a walk cannot run into

In a network as a grammar compiler lays it out a walk can always tell what to do next: it has a
place to return to, a decision has its number and its automaton, and predictions settle for one of
the edges. So a walk that fails has met a syntax error or has given up.
-/

/-- Every state but the ends of rules has an edge. -/
def Network.LeadsOn (network : Network) : Prop :=
  ∀ {number : Nat},
    IsPresent network.states number →
      (network.state number).kind ≠ .ruleStop → (network.state number).edges ≠ []

/-- Whether every state but the ends of rules has an edge. -/
def Network.checkLeadsOn (network : Network) : Bool :=
  network.states.all fun state =>
    state.kind = .invalid || state.kind = .ruleStop || !state.edges.isEmpty

/-- The check of edges can be trusted. -/
theorem Network.leadsOn_of_checkLeadsOn
    {network : Network}
    (checked : network.checkLeadsOn = true) :
    network.LeadsOn := by
  intro number present inside
  obtain ⟨state, isState, valid⟩ := present
  have checkedState := Array.all_eq_true_iff_forall_mem.mp checked state
    (Array.mem_of_getElem? isState)
  have sameState : network.state number = state := by
    simp [Network.state, Array.getD_eq_getD_getElem?, isState]
  rw [sameState] at inside ⊢
  simpa [valid, inside] using checkedState

/-- The automaton of every decision is there, and it holds alternatives of the decision only. -/
structure PredictionCache.Covers
    (network : Network)
    (cache : PredictionCache) :
    Prop where
  each :
    ∀ {decision decisionState : Nat},
      network.decisions[decision]? = some decisionState →
        ∃ automaton,
          cache.automata[decision]? = some automaton ∧ automaton.Proposes network decisionState

namespace PredictionCache.Covers

variable {network : Network} {cache : PredictionCache}

theorem initial (network : Network) : (PredictionCache.initial network).Covers network := by
  refine ⟨fun {decision decisionState} isDecision => ?_⟩
  exact ⟨Automaton.initial network decisionState,
    by simp [PredictionCache.initial, isDecision], rfl, .initial _ _ _⟩

/-- Remembering a prediction of the decision leaves the other automata alone. -/
theorem remember
    (covers : cache.Covers network)
    {decision decisionState : Nat}
    (isDecision : network.decisions[decision]? = some decisionState)
    {memory : Prediction.Memory}
    (proposes : memory.automaton.Proposes network decisionState) :
    (cache.remember decision memory).Covers network := by
  refine ⟨fun {other otherState} isOther => ?_⟩
  obtain ⟨automaton, isThere, otherProposes⟩ := covers.each isOther
  simp only [PredictionCache.remember, Array.getElem?_setIfInBounds]
  split
  · rename_i same
    subst same
    rw [isDecision, Option.some.injEq] at isOther
    rw [if_pos (Array.getElem?_eq_some_iff.mp isThere).1]
    exact ⟨memory.automaton, rfl, isOther ▸ proposes⟩
  · exact ⟨automaton, isThere, otherProposes⟩

end PredictionCache.Covers

namespace Parser

variable {σ : Type} [TokenSource σ] {α β : Type} {network : Network} {run after : Run σ}

/-- A walk stands at a visible token, and what predictions remember is in order. -/
structure Run.InOrder
    (network : Network)
    (run : Run σ) :
    Prop where
  stands : ∃ count, run.tokens.StandsAt count run.position
  holds : run.cache.Holds
  covers : run.cache.Covers network

namespace Run.InOrder

/-- A walk that begins is in order. -/
theorem start
    {tokens : TokenStream σ}
    {cache : PredictionCache}
    (sound : tokens.Sound)
    (holds : cache.Holds)
    (covers : cache.Covers network) :
    (Run.start tokens cache).InOrder network where
  stands := ⟨0, .first sound⟩
  holds := holds
  covers := covers

/-- The order of a walk shows in its tokens, its position and its cache. -/
theorem congr
    (inOrder : run.InOrder network)
    (tokens : run.tokens.Continues after.tokens)
    (position : after.position = run.position)
    (cache : after.cache = run.cache) :
    after.InOrder network where
  stands := by
    obtain ⟨count, stands⟩ := inOrder.stands
    exact ⟨count, position ▸ stands.continues tokens⟩
  holds := cache ▸ inOrder.holds
  covers := cache ▸ inOrder.covers

theorem runHolds (inOrder : run.InOrder network) : run.Holds := by
  obtain ⟨count, stands⟩ := inOrder.stands
  exact ⟨stands.sound, stands.taken, inOrder.holds⟩

/-- Behind a consumed token a walk stands at the next one. -/
theorem consumed (inOrder : run.InOrder network) : run.consumed.InOrder network := by
  obtain ⟨count, stands⟩ := inOrder.stands
  refine ⟨?_, inOrder.holds, inOrder.covers⟩
  cases isEnd : run.current.isEnd with
  | true => exact ⟨count, by simpa [Run.consumed, isEnd] using stands⟩
  | false => exact ⟨count + 1, by simpa [Run.consumed, isEnd] using stands.next isEnd⟩

/-- A walk that has entered its first rule is in order. -/
theorem begun
    (inOrder : run.InOrder network)
    (rule : Nat) :
    (run.begun network rule).InOrder network := by
  refine inOrder.congr ?_ ?_ (Run.cache_begun run network rule)
  · rw [Run.tokens_begun]
    exact .refl _
  · unfold Run.begun
    simp only [Run.enterRule_eq]
    split <;> rfl

end Run.InOrder

/--
A step leaves the walk in order and runs into no fault of the network, and if it succeeds its value
is valid.
-/
structure Faultless
    (network : Network)
    (valid : α → Prop)
    (step : Walk σ α)
    (run : Run σ) :
    Prop where
  inOrder : (outcome step run).2.InOrder network
  noFault : ∀ fault, (outcome step run).1 ≠ .error (.fault fault)
  valid : ∀ value, (outcome step run).1 = .ok value → valid value

namespace Faultless

variable {valid : α → Prop} {validNext : β → Prop}

/-- A step that succeeds is faultless if what it comes to is. -/
theorem of_ends
    {step : Walk σ α}
    {value : α}
    (ends : Ends step run value after)
    (inOrder : after.InOrder network)
    (isValid : valid value) :
    Faultless network valid step run := by
  unfold Ends at ends
  refine ⟨?_, ?_, ?_⟩ <;> rw [ends]
  · exact inOrder
  · rintro _ ⟨⟩
  · rintro _ ⟨⟩
    exact isValid

theorem pure
    (inOrder : run.InOrder network)
    {value : α}
    (isValid : valid value) :
    Faultless network valid (Pure.pure value) run :=
  of_ends (ends_pure_iff.mpr ⟨rfl, rfl⟩) inOrder isValid

/-- A syntax error is no fault of the network. -/
theorem reject
    (inOrder : run.InOrder network)
    (token : Token)
    (message : String) :
    Faultless network valid (Parser.reject token message) run := by
  refine ⟨?_, ?_, ?_⟩ <;> rw [outcome_reject]
  · exact inOrder
  · rintro _ ⟨⟩
  · rintro _ ⟨⟩

/-- A change of where the walk is leaves it in order. -/
theorem change
    {change : Run σ → Run σ}
    (inOrder : (change run).InOrder network) :
    Faultless network (fun _ => True) (modify change) run := by
  have ends : Ends (modify change) run () (change run) := rfl
  exact of_ends ends inOrder trivial

/-- Faultless steps can be taken one after the other. -/
theorem bind
    {step : Walk σ α}
    {next : α → Walk σ β}
    (first : Faultless network valid step run)
    (second :
      ∀ value after, Ends step run value after → after.InOrder network → valid value →
        Faultless network validNext (next value) after) :
    Faultless network validNext (step >>= next) run := by
  cases isFirst : outcome step run with
  | mk result between =>
      have inOrder := first.inOrder
      have noFault := first.noFault
      rw [isFirst] at inOrder noFault
      cases result with
      | error failure =>
          have isRun : outcome (step >>= next) run = (.error failure, between) := by
            rw [outcome_bind, isFirst]
          refine ⟨?_, ?_, ?_⟩ <;> rw [isRun]
          · exact inOrder
          · rintro fault ⟨⟩
            exact noFault fault rfl
          · rintro _ ⟨⟩
      | ok value =>
          have isRun : outcome (step >>= next) run = outcome (next value) between := by
            rw [outcome_bind, isFirst]
          have rest :=
            second value between isFirst inOrder (first.valid value (by rw [isFirst]))
          refine ⟨?_, ?_, ?_⟩ <;> rw [isRun]
          · exact rest.inOrder
          · exact rest.noFault
          · exact rest.valid

/-- Looking at where the walk is does no harm. -/
theorem get
    {next : Run σ → Walk σ α}
    (rest : Faultless network valid (next run) run) :
    Faultless network valid (MonadState.get >>= next) run := by
  have isRun : outcome (MonadState.get >>= next) run = outcome (next run) run := by
    rw [outcome_bind]
    rfl
  refine ⟨?_, ?_, ?_⟩ <;> rw [isRun]
  · exact rest.inOrder
  · exact rest.noFault
  · exact rest.valid

/-- A value that is there can be required. -/
theorem requiring
    {value? : Option α}
    {value : α}
    {fault : Fault}
    {next : α → Walk σ β}
    (isThere : value? = some value)
    (rest : Faultless network validNext (next value) run) :
    Faultless network validNext (Parser.require value? fault >>= next) run := by
  have isRun : outcome (Parser.require value? fault >>= next) run = outcome (next value) run := by
    rw [outcome_bind, isThere]
    rfl
  refine ⟨?_, ?_, ?_⟩ <;> rw [isRun]
  · exact rest.inOrder
  · exact rest.noFault
  · exact rest.valid

/-- What holds of no value holds of none after a step that always fails. -/
theorem mono
    {wider : α → Prop}
    {step : Walk σ α}
    (faultless : Faultless network valid step run)
    (isWider : ∀ value, valid value → wider value) :
    Faultless network wider step run :=
  ⟨faultless.inOrder, faultless.noFault, fun value isValue =>
    isWider value (faultless.valid value isValue)⟩

section Tokens

variable (inOrder : run.InOrder network) (grammar : ParserGrammar)

include inOrder

theorem peekType : Faultless network (fun _ => True) Parser.peekType run :=
  of_ends rfl (inOrder.congr (TokenStream.Continues.nextVisible _ _) rfl rfl) trivial

theorem rejectMismatch : Faultless network valid (Parser.rejectMismatch grammar) run :=
  .get (.reject inOrder _ _)

theorem rejectExtraneous : Faultless network valid (Parser.rejectExtraneous grammar) run :=
  .get (.reject inOrder _ _)

theorem rejectMissing : Faultless network valid (Parser.rejectMissing grammar) run :=
  .get (.reject inOrder _ _)

/-- A token that is no extra one is rejected. -/
theorem rejectUnexpected (current : Int) :
    Faultless network valid
      (do
        let run ← MonadState.get
        match (grammar.network.state run.state).edges.head? with
        | some first =>
            if (run.expectedAt grammar.network first.target).contains current then
              Parser.rejectMissing grammar
            else
              Parser.rejectMismatch grammar
        | none => Parser.rejectMismatch grammar) run := by
  refine .get ?_
  split
  · split
    · exact rejectMissing inOrder grammar
    · exact rejectMismatch inOrder grammar
  · exact rejectMismatch inOrder grammar

theorem rejectCurrent : Faultless network valid (Parser.rejectCurrent grammar) run := by
  refine .get ?_
  dsimp only
  split
  · refine (peekType inOrder).bind fun _ after _ inOrder _ => .get ?_
    split
    · exact (@rejectExtraneous σ _ PUnit _ after (fun _ => True) inOrder grammar).bind
        fun _ _ _ inOrder _ => rejectUnexpected inOrder grammar _
    · exact rejectUnexpected inOrder grammar _
  · exact rejectUnexpected inOrder grammar _

theorem consumeAny : Faultless network (fun _ => True) (Parser.consumeAny grammar) run := by
  refine .get ?_
  split
  · exact rejectCurrent inOrder grammar
  · exact of_ends (outcome_consume run) inOrder.consumed trivial

theorem checkCurrent : Faultless network (fun _ => True) (Parser.checkCurrent grammar) run := by
  refine .get ?_
  dsimp only
  split
  · exact .pure inOrder trivial
  · split
    · split
      · refine (peekType inOrder).bind fun _ after _ inOrder _ => ?_
        split
        · exact (@rejectExtraneous σ _ PUnit _ after (fun _ => True) inOrder grammar).bind
            fun _ _ _ inOrder _ => rejectMismatch inOrder grammar
        · exact rejectMismatch inOrder grammar
      · exact rejectMismatch inOrder grammar
    · split
      · exact rejectExtraneous inOrder grammar
      · exact .pure inOrder trivial

omit grammar in
theorem rejectAlternatives (offending : Nat) :
    Faultless network valid (Parser.rejectAlternatives offending) run := by
  refine .get ?_
  have goesOn :
      ∀ quoted : String × TokenStream σ,
        run.tokens.Continues quoted.2 →
          Faultless network valid
            (do
              MonadStateOf.set { run with tokens := quoted.2 }
              Parser.reject (quoted.2.token offending)
                s!"no viable alternative at input '{Text.escapeBreaks quoted.1}'")
            run := by
    intro quoted continues
    have ends :
        Ends (MonadStateOf.set { run with tokens := quoted.2 } : Walk σ Unit) run ()
          { run with tokens := quoted.2 } :=
      rfl
    have sets : Faultless network (fun _ => True) _ run :=
      of_ends ends (inOrder.congr continues rfl rfl) trivial
    exact sets.bind fun _ _ _ inOrder _ => .reject inOrder _ _
  refine goesOn
    (if (run.tokens.token run.position).isEnd then (Token.endText, run.tokens)
    else run.tokens.text run.position offending) ?_
  split
  · exact .refl _
  · exact TokenStream.Continues.reach _ _

end Tokens

section Predictions

variable
  (inOrder : run.InOrder network)
  {decision decisionState : Nat}
  (isDecision : network.decisions[decision]? = some decisionState)

include inOrder isDecision

/-- A remembered prediction gives an alternative of its decision, if it gives one. -/
theorem predictRemembered :
    Faultless network (Prediction.Outcome.Only (network.IsAlternative decisionState))
      (Parser.predictRemembered network decision) run := by
  obtain ⟨automaton, present, proposes⟩ := inOrder.covers.each isDecision
  have isRun := Repeats.outcome_predictRemembered network decision run
  have repeats := (Repeats.predictRemembered inOrder.runHolds network decision).1
  have holds := repeats.holds
  have continues := repeats.continues
  rw [present] at isRun
  obtain ⟨only, later⟩ :=
    @Prediction.proposes_predictRemembered (settingOf network automaton run.precedence)
      decisionState ⟨run.cache.store, automaton⟩ σ _ proposes run.tokens run.position
  rw [isRun] at holds continues
  obtain ⟨count, stands⟩ := inOrder.stands
  exact of_ends isRun ⟨⟨count, stands.continues continues⟩, holds.cache,
    inOrder.covers.remember isDecision later⟩ only

/-- A prediction in context settles for an alternative of its decision, if it settles for one. -/
theorem predictInContext
    (shaped : network.CompilerShaped)
    (inside : (network.state decisionState).kind ≠ .ruleStop)
    (several : 1 < (network.state decisionState).edges.length)
    {rule : Nat}
    (outermost :
      (network.state ((run.returnStates network).headD decisionState)).rule = some rule) :
    Faultless network
      (fun outcome =>
        outcome.Only (network.IsAlternative decisionState) ∧ outcome ≠ .needsFullContext)
      (Parser.predictInContext network decision) run := by
  obtain ⟨automaton, present, proposes⟩ := inOrder.covers.each isDecision
  have isRun := Repeats.outcome_predictInContext network decision run
  have repeats := (Repeats.predictInContext inOrder.runHolds network decision).1
  have holds := repeats.holds
  have continues := repeats.continues
  rw [present] at isRun
  rw [isRun] at holds continues
  obtain ⟨count, stands⟩ := inOrder.stands
  refine of_ends isRun ⟨⟨count, stands.continues continues⟩, holds.cache, ⟨inOrder.covers.each⟩⟩ ?_
  rw [proposes.sameState]
  exact ⟨Prediction.only_predictInContext _ _ _ _ _,
    @Prediction.settles_predictInContext (settingOf network automaton run.precedence) rule σ _
      shaped decisionState _ count _ _ _ inOrder.holds.wellMade inside several outermost stands⟩

end Predictions

section Steps

variable
  {grammar : ParserGrammar}
  (shaped : grammar.network.CompilerShaped)
  (coherent : grammar.network.Coherent)
  {first : Nat}
  {inner : Invocation}
  {outer : List Invocation}
  (inOrder : run.InOrder grammar.network)
  (tracked : Tracked grammar.network first run inner outer)

include shaped coherent inOrder tracked

/-- A state with several edges is a decision, and its prediction settles for one of the edges. -/
theorem predict
    (inside : (grammar.network.state run.state).kind ≠ .ruleStop)
    (several : 1 < (grammar.network.state run.state).edges.length) :
    Faultless grammar.network (grammar.network.IsAlternative run.state)
      (Parser.predict grammar.network (grammar.network.state run.state)) run := by
  obtain ⟨decision, decides⟩ :=
    Option.isSome_iff_exists.mp (shaped.decided inside several)
  have isDecision := coherent.decision decides
  refine .requiring decides ?_
  refine (predictRemembered inOrder isDecision).bind fun remembered between ends inOrder only => ?_
  cases remembered with
  | predicted alternative => exact .pure inOrder (only alternative rfl)
  | noViableAlternative offending => exact rejectAlternatives inOrder offending
  | needsFullContext =>
      have tracked := tracked.quiet ends.quiet_predictRemembered
      have sameState : between.state = run.state := by
        rw [ends.quiet_predictRemembered.same]
      have outermost := tracked.outermost shaped
      rw [sameState] at outermost
      refine (predictInContext inOrder isDecision shaped inside several outermost).bind
        fun settled _ _ inOrder valid => ?_
      obtain ⟨only, isSettled⟩ := valid
      cases settled with
      | predicted alternative => exact .pure inOrder (only alternative rfl)
      | noViableAlternative offending => exact rejectAlternatives inOrder offending
      | needsFullContext => exact absurd rfl isSettled

omit shaped in
/-- A precedence loop is part of a left-recursive invocation. -/
theorem startRound
    (target : Nat) :
    Faultless grammar.network (fun _ => True)
      (Parser.startRound grammar.network (grammar.network.state run.state) target) run := by
  unfold Parser.startRound
  split
  · rename_i starts
    simp only [Bool.and_eq_true, decide_eq_true_eq] at starts
    have recursions :=
      (tracked.recursions_eq (tracked.isLeftRecursive_of_decides coherent starts.1.2)).1
    have innermost : run.recursions.head? = some inner.link := by
      rw [recursions]
      rfl
    exact .get (.requiring innermost (.of_ends rfl (inOrder.congr (.refl _) rfl rfl) trivial))
  · exact .pure inOrder trivial

omit shaped in
/-- Crossing an edge meets no fault. -/
theorem crossEdge
    (edge : Edge) :
    Faultless grammar.network (fun _ => True)
      (Parser.crossEdge grammar (grammar.network.state run.state) edge) run := by
  have matching :
      ∀ edge : Edge,
        Faultless grammar.network (fun _ => True)
          (do
            if edge.consumes (← MonadState.get).current.type minTokenType maxSetTokenType then
              Parser.consumeAny grammar
            else
              Parser.rejectCurrent grammar) run := by
    intro edge
    refine .get ?_
    split
    · exact consumeAny inOrder grammar
    · exact rejectCurrent inOrder grammar
  cases edge with
  | epsilon target => exact startRound coherent inOrder tracked target
  | atom _ label =>
      refine .get ?_
      split
      · exact .of_ends (outcome_consume run) inOrder.consumed trivial
      · exact rejectCurrent inOrder grammar
  | range target first last => exact matching (.range target first last)
  | set target symbols => exact matching (.set target symbols)
  | notSet target symbols => exact matching (.notSet target symbols)
  | wildcard => exact consumeAny inOrder grammar
  | call target rule precedence follow =>
      refine .change (inOrder.congr ?_ ?_ ?_)
      · simp only [Run.enterRule_eq]
        split <;> exact .refl _
      all_goals
        simp only [Run.enterRule_eq]
        split <;> rfl
  | predicate => exact .pure inOrder trivial
  | action => exact .pure inOrder trivial
  | precedence _ highest =>
      refine .get ?_
      split
      · exact .reject inOrder _ _
      · exact .pure inOrder trivial

/-- Inside a rule there is an edge by which to leave. -/
theorem leaveState
    (leadsOn : grammar.network.LeadsOn)
    (inside : (grammar.network.state run.state).kind ≠ .ruleStop) :
    Faultless grammar.network (fun _ => True) (Parser.leaveState grammar) run := by
  have crossing :
      ∀ {between : Run σ} {alternative : Nat},
        Quiet run between →
          between.InOrder grammar.network →
            grammar.network.IsAlternative run.state alternative →
              Faultless grammar.network (fun _ => True)
                (do
                  let edge ←
                    Parser.require (grammar.network.state run.state).edges[alternative - 1]? .noEdge
                  Parser.crossEdge grammar (grammar.network.state run.state) edge
                  modify fun run => { run with state := edge.target }) between := by
    intro between alternative quiet inOrder isAlternative
    have inBounds : alternative - 1 < (grammar.network.state run.state).edges.length := by
      obtain ⟨atLeast, atMost⟩ := isAlternative
      omega
    have sameState : run.state = between.state := by
      rw [quiet.same]
    refine .requiring (List.getElem?_eq_getElem inBounds) ?_
    have crosses := crossEdge coherent inOrder (tracked.quiet quiet)
    rw [← sameState] at crosses
    exact (crosses _).bind fun _ _ _ inOrder _ => .change (inOrder.congr (.refl _) rfl rfl)
  refine .get ?_
  dsimp only
  split
  · rename_i several
    refine (checkCurrent inOrder grammar).bind fun _ checked ends inOrder _ => ?_
    have quiet := ends.quiet_checkCurrent
    have sameState : run.state = checked.state := by
      rw [quiet.same]
    have predicts :=
      predict shaped coherent inOrder (tracked.quiet quiet) (sameState ▸ inside)
        (sameState ▸ several)
    rw [← sameState] at predicts
    exact predicts.bind fun alternative _ ends inOrder isAlternative =>
      crossing (quiet.trans ends.quiet_predict) inOrder isAlternative
  · have notEmpty := leadsOn tracked.present inside
    exact crossing (.refl run) inOrder ⟨Nat.le_refl 1, List.length_pos_iff.mpr notEmpty⟩

/-- The end of a rule that was called is left for a place to go on. -/
theorem leaveRule
    (stopped : (grammar.network.state run.state).kind = .ruleStop)
    (notEnded : run.hasEnded grammar.network = false) :
    Faultless grammar.network (fun _ => True) (Parser.leaveRule grammar.network) run := by
  have isLink := tracked.link_context
  obtain ⟨caller, isCaller⟩ : ∃ caller, inner.link.caller = some caller := by
    simp only [Run.hasEnded, stopped, isLink] at notEnded
    exact Option.isSome_iff_exists.mp (by simpa using notEnded)
  obtain ⟨parent, follow, around, others, link, _, rfl, isFollow, _⟩ :=
    tracked.called_of_link shaped coherent isCaller
  have ofRule :
      (grammar.network.state run.state).rule.any grammar.network.isLeftRecursive =
        grammar.network.isLeftRecursive inner.rule := by
    rw [tracked.ofRule]
    rfl
  cases recursive : grammar.network.isLeftRecursive inner.rule with
  | true =>
      obtain ⟨recursions, -⟩ := tracked.recursions_eq recursive
      have ends :
          Ends (Parser.leaveRule grammar.network) run ()
            { { run with
                recursions :=
                  (Invocation.recursive grammar.network (around :: others)).map
                    Invocation.link }.leaveRecursion inner.link.parent with
              state := follow } := by
        simp [Ends, Parser.leaveRule, outcome_bind, ofRule, recursive, recursions, isCaller,
          require, isFollow]
      refine .of_ends ends (inOrder.congr ?_ ?_ ?_) trivial
      all_goals rw [link]
      · exact .refl _
      all_goals rfl
  | false =>
      rw [link] at isLink
      have ends :
          Ends (Parser.leaveRule grammar.network) run ()
            { run with context := parent, state := follow } := by
        simp [Ends, Parser.leaveRule, outcome_bind, ofRule, recursive, isLink, require, isFollow]
      exact .of_ends ends (inOrder.congr (.refl _) rfl rfl) trivial

/-- A walk that has not ended can take another step. -/
theorem stepOnce
    (leadsOn : grammar.network.LeadsOn)
    (notEnded : run.hasEnded grammar.network = false) :
    Faultless grammar.network (fun _ => True) (Parser.stepOnce grammar) run := by
  refine .get ?_
  split
  · exact leaveRule shaped coherent inOrder tracked (by assumption) notEnded
  · exact leaveState shaped coherent inOrder tracked leadsOn (by assumption)

end Steps

end Faultless

/-- Only the outermost invocation was called from nowhere. -/
theorem Called.isFirst
    {first : Nat}
    {inner : Invocation}
    {outer : List Invocation}
    (called : Called network first (inner :: outer))
    (notCalled : inner.link.caller = none) :
    inner = .first first := by
  cases called with
  | first => rfl
  | call => cases notCalled

/-- A walk that comes to something does so in a last round. -/
theorem exists_last_of_walk?
    {grammar : ParserGrammar}
    {comes : Except Failure Unit × Run σ}
    (isRun : Run.walk? grammar run = some comes) :
    ∃ count last,
      Advances grammar count run last ∧
        (comes.1 = .ok () ∧ outcome (advance grammar) last = (.ok true, comes.2) ∨
          ∃ failure,
            comes.1 = .error failure ∧
              outcome (advance grammar) last = (.error failure, comes.2)) := by
  refine walk?_induction
    (fun run comes => ∃ count last,
      Advances grammar count run last ∧
        (comes.1 = .ok () ∧ outcome (advance grammar) last = (.ok true, comes.2) ∨
          ∃ failure,
            comes.1 = .error failure ∧
              outcome (advance grammar) last = (.error failure, comes.2)))
    ?_ ?_ ?_ isRun
  · rintro run next comes goesOn ⟨count, last, advances, isLast⟩
    exact ⟨count + 1, last, .step goesOn advances, isLast⟩
  · exact fun run next ended => ⟨0, run, .stay, .inl ⟨rfl, ended⟩⟩
  · exact fun run next failure failed => ⟨0, run, .stay, .inr ⟨failure, rfl, failed⟩⟩

/-- A walk is in order, and what it keeps of its unfinished invocations agrees with them. -/
def Run.IsSafe
    (network : Network)
    (first : Nat)
    (run : Run σ) :
    Prop :=
  run.InOrder network ∧ ∃ inner outer, Tracked network first run inner outer

/-- Counting a step does no harm. -/
theorem Run.IsSafe.counted
    {first : Nat}
    (safe : run.IsSafe network first) :
    run.counted.IsSafe network first := by
  obtain ⟨inOrder, inner, outer, tracked⟩ := safe
  exact ⟨inOrder.congr (.refl _) rfl rfl, inner, outer, tracked.counted⟩

section Walking

variable
  {grammar : ParserGrammar}
  {first : Nat}
  (shaped : grammar.network.CompilerShaped)
  (coherent : grammar.network.Coherent)
  (leadsOn : grammar.network.LeadsOn)

include shaped coherent leadsOn

/-- A round of a walk meets no fault of the network. -/
theorem Run.IsSafe.stepOnce
    (safe : run.IsSafe grammar.network first)
    (notEnded : run.hasEnded grammar.network = false) :
    Faultless grammar.network (fun _ => True) (Parser.stepOnce grammar) run.counted := by
  obtain ⟨inOrder, inner, outer, tracked⟩ := safe.counted
  exact .stepOnce shaped coherent inOrder tracked leadsOn notEnded

/-- A walk stays safe from one round to the next. -/
theorem Run.IsSafe.advance
    (safe : run.IsSafe grammar.network first)
    (goesOn : outcome (Parser.advance grammar) run = (.ok false, after)) :
    after.IsSafe grammar.network first := by
  obtain ⟨-, notEnded, stepped⟩ := goesOn_iff.mp goesOn
  have inOrder := (safe.stepOnce shaped coherent leadsOn notEnded).inOrder
  rw [stepped] at inOrder
  obtain ⟨-, inner, outer, tracked⟩ := safe
  obtain ⟨nextInner, nextOuter, -, nextTracked⟩ := tracked.advance shaped coherent goesOn
  exact ⟨inOrder, nextInner, nextOuter, nextTracked⟩

/-- A whole stretch of a walk stays safe. -/
theorem Run.IsSafe.advances
    {count : Nat}
    (safe : run.IsSafe grammar.network first)
    (advances : Advances grammar count run after) :
    after.IsSafe grammar.network first := by
  induction advances with
  | stay => exact safe
  | step goesOn _ inductionHypothesis =>
      exact inductionHypothesis (safe.advance shaped coherent leadsOn goesOn)

/-- A round that fails without a syntax error gives up. -/
theorem Run.IsSafe.fails
    (safe : run.IsSafe grammar.network first)
    {failure : Failure}
    (failed : outcome (Parser.advance grammar) run = (.error failure, after)) :
    after.InOrder grammar.network ∧
      ∀ fault, failure = .fault fault →
        fault = .noProgress ∧ idleLimit grammar.network ≤ run.idleSteps := by
  rcases fails_iff.mp failed with ⟨isIdle, rfl, rfl⟩ | ⟨-, notEnded, stepped⟩
  · refine ⟨safe.counted.1, ?_⟩
    rintro fault ⟨⟩
    exact ⟨rfl, isIdle⟩
  · have steps := safe.stepOnce shaped coherent leadsOn notEnded
    have inOrder := steps.inOrder
    have noFault := steps.noFault
    rw [stepped] at inOrder noFault
    refine ⟨inOrder, ?_⟩
    rintro fault rfl
    exact absurd rfl (noFault fault)

omit shaped coherent leadsOn in
/-- The first rule can be left when it has ended. -/
theorem Faultless.leaveFirst
    {inner : Invocation}
    {outer : List Invocation}
    (inOrder : run.InOrder network)
    (tracked : Tracked network first run inner outer)
    (ended : run.hasEnded network = true) :
    Faultless network (fun _ => True) (Parser.leaveFirst network first) run := by
  have isFirst : inner = .first first := by
    refine tracked.called.isFirst ?_
    simp only [Run.hasEnded, tracked.link_context, Bool.and_eq_true,
      Option.isNone_iff_eq_none] at ended
    exact ended.2
  subst isFirst
  unfold Parser.leaveFirst
  split
  · rename_i recursive
    obtain ⟨recursions, -⟩ := tracked.recursions_eq recursive
    refine .get ?_
    rw [recursions]
    have sets :
        Faultless network (fun _ => True)
          (MonadStateOf.set
            ({ run with
                recursions :=
                  (Invocation.recursive network outer).map Invocation.link }.leaveRecursion
              (Invocation.first first).link.parent) : Walk σ Unit)
          run :=
      .of_ends rfl (inOrder.congr (.refl _) rfl rfl) trivial
    exact sets.bind fun _ _ _ inOrder _ => .pure inOrder trivial
  · exact .get (.pure inOrder trivial)

/--
A rule gives neither a tree nor a syntax error only if its walk never ends, or if it comes to a
round in which it gives up.
-/
theorem fault_of_parseRule
    {tokens : TokenStream σ}
    {cache : PredictionCache}
    (inOrder : (Run.start tokens cache).InOrder grammar.network)
    (inRules : first < grammar.network.ruleCount) :
    (outcome (parseRule grammar first) (Run.start tokens cache)).2.InOrder grammar.network ∧
      ∀ fault,
        (outcome (parseRule grammar first) (Run.start tokens cache)).1 = .error (.fault fault) →
          fault = .endless ∨
            fault = .noProgress ∧
              ∃ count last,
                Advances grammar count ((Run.start tokens cache).begun grammar.network first)
                    last ∧
                  idleLimit grammar.network ≤ last.idleSteps := by
  have begun : ((Run.start tokens cache).begun grammar.network first).IsSafe grammar.network
      first :=
    ⟨inOrder.begun first, _, _, .begun shaped coherent tokens cache inRules⟩
  cases isWalk :
    Run.walk? grammar ((Run.start tokens cache).begun grammar.network first) with
  | none =>
      rw [outcome_parseRule_of_none isWalk]
      refine ⟨begun.1, ?_⟩
      rintro fault ⟨⟩
      exact .inl rfl
  | some comes =>
      obtain ⟨result, after⟩ := comes
      have isRun :
          outcome (parseRule grammar first) (Run.start tokens cache) =
            outcome (walk grammar >>= fun _ => leaveFirst grammar.network first)
              ((Run.start tokens cache).begun grammar.network first) := by
        rw [parseRule_eq, outcome_bind, outcome_modify]
      rw [isRun, outcome_bind, outcome_walk_of_some isWalk]
      obtain ⟨count, last, advances, ⟨rfl, ended⟩ | ⟨failure, rfl, failed⟩⟩ :=
        exists_last_of_walk? isWalk
      · obtain ⟨-, hasEnded, rfl⟩ := endsWalk_iff.mp ended
        obtain ⟨inOrderLast, inner, outer, tracked⟩ :=
          (begun.advances shaped coherent leadsOn advances).counted
        have leaves := Faultless.leaveFirst inOrderLast tracked hasEnded
        exact ⟨leaves.inOrder, fun fault isFault => absurd isFault (leaves.noFault fault)⟩
      · obtain ⟨inOrderLast, onlyFault⟩ :=
          (begun.advances shaped coherent leadsOn advances).fails shaped coherent leadsOn failed
        refine ⟨inOrderLast, ?_⟩
        rintro fault ⟨⟩
        obtain ⟨rfl, isIdle⟩ := onlyFault fault rfl
        exact .inr ⟨rfl, count, last, advances, isIdle⟩

end Walking

/-- A result is a fault only if the walk ended with it. -/
theorem fault_of_resultOf
    {errors : List SyntaxError}
    {nodes : Array ParseTree.RuleNode}
    {result : Except Failure Nat}
    {fault : Fault}
    (isFault : resultOf errors nodes result = .error (.fault fault)) :
    result = .error (.fault fault) := by
  rcases result with (error | cause) | root
  · cases isFault
  · cases isFault
    rfl
  · simp only [resultOf] at isFault
    split at isFault <;> cases isFault

/-- A rule whose walk ends with a fault has the fault for its result. -/
theorem invokeNumber_of_fault
    {parser : Parser σ}
    {rule : Nat}
    {fault : Fault}
    (isFault :
      (outcome (parseRule parser.grammar rule) (Run.start parser.tokens parser.cache)).1 =
        .error (.fault fault)) :
    (parser.invokeNumber rule).1 = .error (.fault fault) := by
  change resultOf _ _ (outcome (parseRule parser.grammar rule) _).1 = _
  rw [isFault]
  rfl

/-- A parser whose tokens and remembered predictions are in order. -/
structure WellKept (parser : Parser σ) : Prop where
  sound : parser.tokens.Sound
  holds : parser.cache.Holds
  covers : parser.cache.Covers parser.grammar.network

namespace WellKept

variable {parser : Parser σ}

omit [TokenSource σ] in
/-- A new parser has nothing out of order. -/
theorem ofSource
    (grammar : ParserGrammar)
    (source : σ) :
    (Parser.ofStream grammar (TokenStream.ofSource source)).WellKept where
  sound := .ofSource source
  holds := PredictionCache.holds_initial grammar.network
  covers := .initial grammar.network

variable
  (shaped : parser.grammar.network.CompilerShaped)
  (coherent : parser.grammar.network.Coherent)
  (leadsOn : parser.grammar.network.LeadsOn)
  (named : parser.grammar.ruleNames.size = parser.grammar.network.ruleCount)
  (kept : parser.WellKept)

include shaped coherent leadsOn kept

/-- Parsing a rule keeps a parser in order. -/
theorem invokeNumber
    {rule : Nat}
    (inRules : rule < parser.grammar.network.ruleCount) :
    (parser.invokeNumber rule).2.WellKept ∧
      ∀ fault, (parser.invokeNumber rule).1 = .error (.fault fault) →
        fault = .endless ∨
          fault = .noProgress ∧
            ∃ count last,
              Advances parser.grammar count
                  ((Run.start parser.tokens parser.cache).begun parser.grammar.network rule) last ∧
                idleLimit parser.grammar.network ≤ last.idleSteps := by
  obtain ⟨inOrder, onlyFault⟩ :=
    fault_of_parseRule shaped coherent leadsOn (.start kept.sound kept.holds kept.covers) inRules
  obtain ⟨count, stands⟩ := inOrder.stands
  exact ⟨⟨⟨stands.sound.ended_iff, stands.sound.onlyLast⟩, inOrder.holds, inOrder.covers⟩,
    fun fault isFault => onlyFault fault (fault_of_resultOf isFault)⟩

include named in
/-- An invocation keeps a parser in order, whatever the rule is called. -/
theorem invoke
    (rule : String) :
    (parser.invoke rule).2.WellKept ∧ (parser.invoke rule).2.grammar = parser.grammar ∧
      ∀ fault, (parser.invoke rule).1 = .error (.fault fault) →
        fault = .noProgress ∨ fault = .endless := by
  unfold Parser.invoke
  split
  · exact ⟨kept, rfl, by rintro _ ⟨⟩⟩
  · rename_i number found
    obtain ⟨inBounds, -⟩ := Array.findIdx?_eq_some_iff_getElem.mp found
    obtain ⟨stays, onlyFault⟩ := kept.invokeNumber shaped coherent leadsOn (named ▸ inBounds)
    refine ⟨stays, rfl, fun fault isFault => ?_⟩
    rcases onlyFault fault isFault with rfl | ⟨rfl, -⟩
    · exact .inr rfl
    · exact .inl rfl

include named in
/-- Earlier invocations keep a parser in order. -/
theorem afterInvoking
    (rules : List String) :
    (parser.afterInvoking rules).WellKept ∧
      (parser.afterInvoking rules).grammar = parser.grammar := by
  induction rules generalizing parser with
  | nil => exact ⟨kept, rfl⟩
  | cons rule rules inductionHypothesis =>
      obtain ⟨stays, same, -⟩ := kept.invoke shaped coherent leadsOn named rule
      obtain ⟨keptLast, sameLast⟩ :=
        inductionHypothesis (same ▸ shaped) (same ▸ coherent) (same ▸ leadsOn) (same ▸ named) stays
      exact ⟨keptLast, sameLast.trans same⟩

end WellKept

/-- What a walk keeps says which invocations are unfinished, innermost first. -/
structure Run.Keeps
    (network : Network)
    (run : Run σ)
    (invocations : List Invocation) :
    Prop where
  links : Chain run.links run.context (invocations.map Invocation.link)
  returnStates :
    run.returnStates network = (invocations.filterMap Invocation.follow).reverse
  recursions :
    run.recursions = (Invocation.recursive network invocations).map Invocation.link
  precedences :
    run.precedences =
      (Invocation.recursive network invocations).map Invocation.precedence ++ [0]

omit [TokenSource σ] in
/-- A walk that is tracked keeps its invocations. -/
theorem Tracked.keeps
    {first : Nat}
    {inner : Invocation}
    {outer : List Invocation}
    (shaped : network.CompilerShaped)
    (tracked : Tracked network first run inner outer) :
    run.Keeps network (inner :: outer) where
  links := tracked.chain
  returnStates := tracked.returnStates_eq shaped
  recursions := tracked.recursions
  precedences := tracked.precedences

/--
At every step of the walk of a rule its links, its left-recursive invocations and its precedences
are those of the invocations that are unfinished. So the walk never lacks what it needs: whatever
was parsed before, an invocation without a tree has met a syntax error, was given up because it made
no progress, or never ends.
-/
theorem keeps_invocations
    {name : String}
    {data : RecognizerData}
    {grammar : ParserGrammar}
    (isGrammar : ParserGrammar.ofData name data = .ok grammar)
    (shaped : grammar.network.CompilerShaped)
    (leadsOn : grammar.network.LeadsOn)
    (source : σ)
    (earlier : List String) :
    let parser := (ofStream grammar (TokenStream.ofSource source)).afterInvoking earlier
    (∀ rule < grammar.network.ruleCount,
      ∀ (run : Run σ) (invocations : List Invocation),
        Unfinished grammar (Run.start parser.tokens parser.cache) rule run invocations →
          run.Keeps grammar.network invocations) ∧
      ∀ rule fault,
        (parser.invoke rule).1 = .error (.fault fault) →
          fault = .noProgress ∨ fault = .endless := by
  obtain ⟨coherent, named⟩ := coherent_of_ofData isGrammar
  refine ⟨fun rule inRules run invocations unfinished => ?_, fun rule fault isFault => ?_⟩
  · obtain ⟨inner, outer, rfl, tracked⟩ := unfinished.tracked shaped coherent inRules
    exact tracked.keeps shaped
  · obtain ⟨kept, same⟩ :=
      (WellKept.ofSource grammar source).afterInvoking shaped coherent leadsOn named earlier
    have onlyFault :=
      kept.invoke (same ▸ shaped) (same ▸ coherent) (same ▸ leadsOn) (same ▸ named) rule
    exact onlyFault.2.2 fault isFault

/-- The left-recursive rule `e : e '+' | 'i' ;` is parsed with all its invocations in order. -/
theorem Suffixes.invocations_kept :
    ParserGrammar.ofData "Suffixes" Suffixes.data = .ok Suffixes.grammar ∧
      Suffixes.grammar.network.CompilerShaped ∧ Suffixes.grammar.network.LeadsOn ∧
        let parser :=
          (ofStream Suffixes.grammar
            (TokenStream.ofSource (ListedTokens.ofList [(1, "i", 0), (2, "+", 0)]))).afterInvoking
              ["e"]
        (∀ rule < Suffixes.grammar.network.ruleCount,
          ∀ (run : Run ListedTokens) (invocations : List Invocation),
            Unfinished Suffixes.grammar (Run.start parser.tokens parser.cache) rule run
                invocations →
              run.Keeps Suffixes.grammar.network invocations) ∧
          ∀ rule fault,
            (parser.invoke rule).1 = .error (.fault fault) →
              fault = .noProgress ∨ fault = .endless := by
  have isGrammar : ParserGrammar.ofData "Suffixes" Suffixes.data = .ok Suffixes.grammar := by cbv
  have shaped : Suffixes.grammar.network.CompilerShaped :=
    Network.compilerShaped_of_checkShape (by decide +kernel)
  have leadsOn : Suffixes.grammar.network.LeadsOn :=
    Network.leadsOn_of_checkLeadsOn (by decide +kernel)
  exact ⟨isGrammar, shaped, leadsOn, keeps_invocations isGrammar shaped leadsOn _ ["e"]⟩

namespace Astray

/--
The data of a parser for `s : u ; u : t ; t : ;` and a left-recursive rule `r`. The rule `t` does
not return to `u`, which invokes it, but into `r`, at state 8.
-/
def data : RecognizerData where
  literalNames := [none]
  symbolicNames := []
  ruleNames := ["s", "r", "t", "u"]
  channelNames := []
  modeNames := []
  encodedNetwork :=
    [4, 1, 1, 10, 2, 0, 7, 0, 2, 1, 7, 1, 2, 2, 7, 2, 2, 3, 7, 3, 1, 1, 1, 0, 0, 1, 2, 4, 0, 2, 4, 6,
      0, 0, 6,
      0, 9, 3, 6, 3, 0, 9, 1, 1, 0, 0, 0, 2, 8, 1, 0, 0, 0, 8, 3, 1, 0, 0, 0, 4, 5, 1, 0, 0, 0, 6, 8,
      3, 4, 2, 0, 0]

/-- The grammar itself. -/
def grammar : ParserGrammar :=
  (ParserGrammar.ofData "Astray" data).toOption.getD default

/-- A parser of no tokens but the end of the input. -/
def parser : Parser ListedTokens :=
  ofStream grammar (TokenStream.ofSource (ListedTokens.ofList []))

set_option maxRecDepth 20000 in
/--
The rules are kept apart, there is no state to decide at, and every state but the ends of rules has
an edge. Yet the walk comes to the end of a left-recursive rule that was not invoked.
-/
theorem recursion_underflow :
    ParserGrammar.ofData "Astray" data = .ok grammar ∧ grammar.network.RuleShaped ∧
      (∀ number, (grammar.network.state number).kind ≠ .ruleStop →
        (grammar.network.state number).edges.length ≤ 1) ∧
        grammar.network.LeadsOn ∧ (parser.invoke "s").1 = .error (.fault .noRecursionToLeave) := by
  refine ⟨by cbv, Network.ruleShaped_of_checkRules (by cbv), ?_,
    Network.leadsOn_of_checkLeadsOn (by decide +kernel), ?_⟩
  · intro number inside
    have few :
        (List.range grammar.network.states.size).all
          (fun number =>
            (grammar.network.state number).kind = .ruleStop ||
              (grammar.network.state number).edges.length ≤ 1) = true := by decide +kernel
    rcases Network.forall_state few number with checked | isBare
    · simpa [inside] using checked
    · simp [isBare, Network.State.bare]
  · cbv

end Astray

end Parser

end GrammarService
