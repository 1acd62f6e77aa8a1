import GrammarService.Proofs.Parser.Soundness
import GrammarService.Proofs.Prediction.Reachable
import GrammarService.Proofs.Prediction.Remembering

namespace GrammarService

/-!
# Parsing a rule again changes nothing

A walk looks at tokens that have been taken, and takes more; it looks at what predictions remember,
and remembers more. A walk that is repeated from the beginning finds all that it took and learned
the first time. It goes the same way, fails where it failed, and neither takes nor learns anything.
-/

namespace PredictionCache

variable {cache after : PredictionCache}

/-- The stacks of a cache are well made, and its automata refer to what is there. -/
structure Holds (cache : PredictionCache) : Prop where
  wellMade : cache.store.WellMade
  each :
    ∀ {decision : Nat} {automaton : Automaton},
      cache.automata[decision]? = some automaton → automaton.IsIn cache.store

/-- All that a cache remembers another one remembers too. -/
structure Extends (cache after : PredictionCache) : Prop where
  store : cache.store.Extends after.store
  each :
    ∀ {decision : Nat} {automaton : Automaton},
      cache.automata[decision]? = some automaton →
        ∃ later, after.automata[decision]? = some later ∧ automaton.Extends later
  none :
    ∀ {decision : Nat},
      cache.automata[decision]? = none → after.automata[decision]? = none

namespace Extends

theorem refl (cache : PredictionCache) : cache.Extends cache where
  store := .refl _
  each present := ⟨_, present, .refl _⟩
  none := id

theorem trans
    {last : PredictionCache}
    (earlier : cache.Extends after)
    (later : after.Extends last) :
    cache.Extends last where
  store := earlier.store.trans later.store
  each present := by
    obtain ⟨between, isBetween, extension⟩ := earlier.each present
    obtain ⟨automaton, isLast, further⟩ := later.each isBetween
    exact ⟨automaton, isLast, extension.trans further⟩
  none missing := later.none (earlier.none missing)

end Extends

/-- The cache with another store that has all that its own has. -/
theorem Holds.withStore
    (holds : cache.Holds)
    {store : StackStore}
    (wellMade : store.WellMade)
    (extension : cache.store.Extends store) :
    ({ cache with store := store } : PredictionCache).Holds ∧
      cache.Extends { cache with store := store } :=
  ⟨⟨wellMade, fun present => (holds.each present).grows extension.toGrows⟩,
    ⟨extension, fun present => ⟨_, present, .refl _⟩, id⟩⟩

/-- Remembering a prediction extends a cache. -/
theorem Holds.remember
    (holds : cache.Holds)
    {decision : Nat}
    {automaton : Automaton}
    {memory : Prediction.Memory}
    (present : cache.automata[decision]? = some automaton)
    (memoryHolds : memory.Holds)
    (extension : Prediction.Memory.Extends ⟨cache.store, automaton⟩ memory) :
    (cache.remember decision memory).Holds ∧ cache.Extends (cache.remember decision memory) := by
  have inBounds := (Array.getElem?_eq_some_iff.mp present).1
  refine ⟨⟨memoryHolds.wellMade, ?_⟩, ⟨extension.store, ?_, ?_⟩⟩
  · intro other automaton isThere
    simp only [PredictionCache.remember, Array.getElem?_setIfInBounds] at isThere
    split at isThere
    · cases isThere
      exact memoryHolds.isIn
    · exact (holds.each isThere).grows extension.store.toGrows
  · intro other automaton isThere
    simp only [PredictionCache.remember, Array.getElem?_setIfInBounds]
    split
    · rename_i same
      subst same
      rw [present, Option.some.injEq] at isThere
      exact ⟨memory.automaton, rfl, isThere ▸ extension.automaton⟩
    · exact ⟨automaton, isThere, .refl _⟩
  · intro other missing
    simp only [PredictionCache.remember, Array.getElem?_setIfInBounds]
    split
    · rename_i same
      subst same
      rw [present] at missing
      cases missing
    · exact missing

/-- What was remembered last is there. -/
theorem getElem?_remember
    {decision : Nat}
    {automaton : Automaton}
    (present : cache.automata[decision]? = some automaton)
    (memory : Prediction.Memory) :
    (cache.remember decision memory).automata[decision]? = some memory.automaton := by
  simp [PredictionCache.remember, (Array.getElem?_eq_some_iff.mp present).1]

/-- Remembering what is remembered already changes nothing. -/
theorem remember_of_present
    {decision : Nat}
    {automaton : Automaton}
    (present : cache.automata[decision]? = some automaton) :
    cache.remember decision ⟨cache.store, automaton⟩ = cache := by
  have sameAutomata : cache.automata.setIfInBounds decision automaton = cache.automata := by
    refine Array.ext_getElem? fun other => ?_
    rw [Array.getElem?_setIfInBounds]
    split
    · rename_i same
      subst same
      rw [present, if_pos (Array.getElem?_eq_some_iff.mp present).1]
    · rfl
  simp only [PredictionCache.remember, sameAutomata]

/-- Nothing is wrong in a cache without predictions. -/
theorem holds_initial (network : Network) : (PredictionCache.initial network).Holds where
  wellMade := .initial
  each := by
    intro decision automaton present
    simp only [PredictionCache.initial, Array.getElem?_map, Option.map_eq_some_iff] at present
    obtain ⟨decisionState, _, rfl⟩ := present
    exact {
      sets := by simp [Automaton.initial]
      indexed := by simp [Automaton.initial]
      started := by simp [Automaton.initial, Automaton.start?]
      leading := by simp [Automaton.initial, Automaton.successor?] }

end PredictionCache

namespace Parser

variable {σ : Type} [TokenSource σ] {α β : Type} {run : Run σ}

/-- A walk in the same place, with other tokens taken and other predictions remembered. -/
def Run.within
    (run : Run σ)
    (tokens : TokenStream σ)
    (cache : PredictionCache) :
    Run σ :=
  { run with tokens := tokens, cache := cache }

/-- The current token of a walk was taken, and what predictions remember is in order. -/
structure Run.Holds (run : Run σ) : Prop where
  sound : run.tokens.Sound
  taken : run.position < run.tokens.tokens.size
  cache : run.cache.Holds

/--
A step only takes tokens and remembers predictions, and when it is repeated with more tokens taken
and more predictions remembered it comes to the same and neither takes nor remembers any.
-/
structure Repeats
    (step : Walk σ α)
    (run : Run σ) :
    Prop where
  holds : (outcome step run).2.Holds
  continues : run.tokens.Continues (outcome step run).2.tokens
  extension : run.cache.Extends (outcome step run).2.cache
  again :
    ∀ {tokens : TokenStream σ} {cache : PredictionCache},
      (outcome step run).2.tokens.Continues tokens →
        (outcome step run).2.cache.Extends cache →
          outcome step (run.within tokens cache) =
            ((outcome step run).1, (outcome step run).2.within tokens cache)

/-- The current token stays the same when more tokens are taken. -/
theorem Run.Holds.current_within
    (holds : run.Holds)
    {tokens : TokenStream σ}
    (continues : run.tokens.Continues tokens)
    (cache : PredictionCache) :
    (run.within tokens cache).current = run.current :=
  continues.token_eq holds.taken

namespace Repeats

/-- A step that only looks at where the walk is can be repeated. -/
theorem of_outcome
    {step : Walk σ α}
    {result : Except Failure α}
    {next : Run σ → Run σ}
    (holds : run.Holds)
    (sameTokens : (next run).tokens = run.tokens)
    (sameCache : (next run).cache = run.cache)
    (samePosition : (next run).position = run.position)
    (commutes :
      ∀ tokens cache, next (run.within tokens cache) = (next run).within tokens cache)
    (isRun :
      ∀ {tokens : TokenStream σ} {cache : PredictionCache},
        run.tokens.Continues tokens →
          outcome step (run.within tokens cache) = (result, next (run.within tokens cache))) :
    Repeats step run := by
  have atFirst : outcome step run = (result, next run) :=
    @isRun run.tokens run.cache (.refl _)
  refine ⟨?_, ?_, ?_, ?_⟩ <;> rw [atFirst]
  · refine ⟨?_, ?_, ?_⟩
    · exact sameTokens.symm ▸ holds.sound
    · dsimp only
      rw [samePosition, sameTokens]
      exact holds.taken
    · exact sameCache.symm ▸ holds.cache
  · exact sameTokens.symm ▸ .refl _
  · exact sameCache.symm ▸ .refl _
  · intro tokens cache continues _
    rw [isRun (by exact sameTokens ▸ continues), commutes]

theorem pure
    (holds : run.Holds)
    (value : α) :
    Repeats (Pure.pure value) run := by
  refine @of_outcome _ _ _ run _ (.ok value) id holds rfl rfl rfl (fun _ _ => rfl) ?_
  exact fun _ => rfl

theorem fail
    (holds : run.Holds)
    (fault : Fault) :
    Repeats (Parser.fail fault : Walk σ α) run := by
  refine @of_outcome _ _ _ run _ (.error (.fault fault)) id holds rfl rfl rfl (fun _ _ => rfl) ?_
  exact fun _ => rfl

theorem reject
    (holds : run.Holds)
    (token : Token)
    (message : String) :
    Repeats (Parser.reject token message : Walk σ α) run := by
  refine @of_outcome _ _ _ run _ (.error (.syntaxError (SyntaxError.atToken token message))) id
    holds rfl rfl rfl (fun _ _ => rfl) ?_
  exact fun _ => rfl

theorem require
    (holds : run.Holds)
    (value? : Option α)
    (fault : Fault) :
    Repeats (Parser.require value? fault : Walk σ α) run := by
  cases value? with
  | none => exact .fail holds fault
  | some value => exact .pure holds value

/-- A step can be repeated if it does what another one does that can be repeated. -/
theorem congr
    {step other : Walk σ α}
    (repeats : Repeats other run)
    (same :
      ∀ tokens cache,
        outcome step (run.within tokens cache) = outcome other (run.within tokens cache)) :
    Repeats step run := by
  have atFirst : outcome step run = outcome other run := same run.tokens run.cache
  refine ⟨?_, ?_, ?_, ?_⟩ <;> rw [atFirst]
  · exact repeats.holds
  · exact repeats.continues
  · exact repeats.extension
  · intro tokens cache continues extension
    rw [same]
    exact repeats.again continues extension

/-- What follows a required value can be repeated if it can where the value is there. -/
theorem requiring
    (holds : run.Holds)
    {value? : Option α}
    {fault : Fault}
    {next : α → Walk σ β}
    (rest : ∀ value, value? = some value → Repeats (next value) run) :
    Repeats (Parser.require value? fault >>= next) run := by
  cases value? with
  | none => exact .fail holds fault
  | some value => exact rest value rfl

/-- Steps that can be repeated can be repeated one after the other. -/
theorem bind
    {step : Walk σ α}
    {next : α → Walk σ β}
    (first : Repeats step run)
    (second :
      ∀ value, (outcome step run).1 = .ok value → Repeats (next value) (outcome step run).2) :
    Repeats (step >>= next) run := by
  cases isFirst : outcome step run with
  | mk result between =>
      have firstAgain := @first.again
      have firstHolds := first.holds
      have firstContinues := first.continues
      have firstExtension := first.extension
      rw [isFirst] at firstAgain firstHolds firstContinues firstExtension second
      cases result with
      | error failure =>
          have isRun : outcome (step >>= next) run = (.error failure, between) := by
            rw [outcome_bind, isFirst]
          refine ⟨?_, ?_, ?_, ?_⟩ <;> rw [isRun]
          · exact firstHolds
          · exact firstContinues
          · exact firstExtension
          · intro tokens cache continues extension
            rw [outcome_bind, firstAgain continues extension]
      | ok value =>
          have isRun : outcome (step >>= next) run = outcome (next value) between := by
            rw [outcome_bind, isFirst]
          have rest := second value rfl
          refine ⟨?_, ?_, ?_, ?_⟩ <;> rw [isRun]
          · exact rest.holds
          · exact firstContinues.trans rest.continues
          · exact firstExtension.trans rest.extension
          · intro tokens cache continues extension
            rw [outcome_bind,
              firstAgain (rest.continues.trans continues) (rest.extension.trans extension)]
            exact rest.again continues extension

/-- A step can look at what does not depend on what was taken or remembered meanwhile. -/
theorem get
    {next : Run σ → Walk σ α}
    (stable :
      ∀ {tokens : TokenStream σ} {cache : PredictionCache},
        run.tokens.Continues tokens → next (run.within tokens cache) = next run)
    (rest : Repeats (next run) run) :
    Repeats (MonadState.get >>= next) run := by
  have isRun : ∀ run : Run σ, outcome (MonadState.get >>= next) run = outcome (next run) run := by
    intro run
    rw [outcome_bind]
    rfl
  refine ⟨?_, ?_, ?_, ?_⟩ <;> rw [isRun]
  · exact rest.holds
  · exact rest.continues
  · exact rest.extension
  · intro tokens cache continues extension
    rw [isRun, stable (rest.continues.trans continues)]
    exact rest.again continues extension

/-- A change of where the walk is can be repeated. -/
theorem change
    {change : Run σ → Run σ}
    (holds : run.Holds)
    (sameTokens : (change run).tokens = run.tokens)
    (sameCache : (change run).cache = run.cache)
    (samePosition : (change run).position = run.position)
    (commutes :
      ∀ tokens cache, change (run.within tokens cache) = (change run).within tokens cache) :
    Repeats (modify change : Walk σ Unit) run :=
  @of_outcome _ _ _ run _ (.ok ()) change holds sameTokens sameCache samePosition commutes
    fun _ => rfl

end Repeats

namespace Run

omit [TokenSource σ] in
/-- The expected tokens do not depend on what was taken or remembered. -/
theorem expectedBehind_within
    (run : Run σ)
    (tokens : TokenStream σ)
    (cache : PredictionCache)
    (network : Network)
    (count : Nat)
    (context : Option Nat)
    (following expected : IntervalSet) :
    (run.within tokens cache).expectedBehind network count context following expected =
      run.expectedBehind network count context following expected := by
  induction count generalizing context following expected with
  | zero => rfl
  | succ count inductionHypothesis =>
      simp only [expectedBehind, inductionHypothesis]
      rfl

omit [TokenSource σ] in
theorem expectedAt_within
    (run : Run σ)
    (tokens : TokenStream σ)
    (cache : PredictionCache)
    (network : Network)
    (state : Nat) :
    (run.within tokens cache).expectedAt network state = run.expectedAt network state := by
  simp only [expectedAt, expectedBehind_within]
  rfl

omit [TokenSource σ] in
theorem expected_within
    (run : Run σ)
    (tokens : TokenStream σ)
    (cache : PredictionCache)
    (network : Network) :
    (run.within tokens cache).expected network = run.expected network :=
  run.expectedAt_within tokens cache network run.state

omit [TokenSource σ] in
/-- The rule invocations do not depend on what was taken or remembered. -/
theorem returnStates_within
    (run : Run σ)
    (tokens : TokenStream σ)
    (cache : PredictionCache)
    (network : Network) :
    (run.within tokens cache).returnStates network = run.returnStates network := by
  have from_ :
      ∀ (count context : Nat) (inner : List Nat),
        (run.within tokens cache).returnStatesFrom network count context inner =
          run.returnStatesFrom network count context inner := by
    intro count
    induction count with
    | zero => exact fun _ _ => rfl
    | succ count inductionHypothesis =>
        intro context inner
        simp only [returnStatesFrom, inductionHypothesis]
        rfl
  exact from_ _ _ _

omit [TokenSource σ] in
/-- Entering a rule moves the walk and hangs the context below its parent, if it has one. -/
theorem enterRule_eq
    (run : Run σ)
    (context state : Nat) :
    run.enterRule context state =
      { run with
        state := state
        context := context
        nodes :=
          match (run.link context).parent with
          | some parent => ParseTree.addChild run.nodes parent (.rule context)
          | none => run.nodes } := by
  have sameLink :
      ({ run with state := state, context := context } : Run σ).link context =
        run.link context :=
    rfl
  simp only [enterRule, sameLink]
  cases (run.link context).parent <;> rfl

omit [TokenSource σ] in
/-- Leaving a left-recursive rule does not depend on what was taken or remembered. -/
theorem leaveRecursion_within
    (run : Run σ)
    (tokens : TokenStream σ)
    (cache : PredictionCache)
    (parent : Option Nat) :
    (run.within tokens cache).leaveRecursion parent =
      (run.leaveRecursion parent).within tokens cache := by
  cases parent <;> rfl

/-- The current token is not the end: another one follows. -/
theorem Holds.inBounds
    (holds : run.Holds)
    (notEnd : run.current.isEnd = false) :
    run.position + 1 < run.tokens.all.size :=
  Prediction.lt_size_all_of_not_end holds.sound holds.taken notEnd

end Run

namespace Repeats

/-- Looking at the next visible token can be repeated. -/
theorem peekType
    (holds : run.Holds)
    (notEnd : run.current.isEnd = false) :
    Repeats Parser.peekType run := by
  have inBounds := holds.inBounds notEnd
  have looked := TokenStream.Continues.nextVisible run.tokens (run.position + 1)
  have found := TokenStream.firstVisible_nextVisible holds.sound inBounds
  have isRun :
      ∀ run : Run σ,
        outcome Parser.peekType run =
          (.ok ((run.tokens.nextVisible (run.position + 1)).2.token
              (run.tokens.nextVisible (run.position + 1)).1).type,
            { run with tokens := (run.tokens.nextVisible (run.position + 1)).2 }) :=
    fun _ => rfl
  refine ⟨?_, ?_, ?_, ?_⟩ <;> rw [isRun]
  · refine ⟨looked.sound holds.sound, ?_, holds.cache⟩
    have present := looked.kept (Array.getElem?_eq_getElem holds.taken)
    exact (Array.getElem?_eq_some_iff.mp present).1
  · exact looked
  · exact .refl _
  · intro tokens cache continues _
    have again := TokenStream.nextVisible_again holds.sound inBounds continues
    have sameRun :
        outcome Parser.peekType (run.within tokens cache) =
          (.ok ((tokens.nextVisible (run.position + 1)).2.token
              (tokens.nextVisible (run.position + 1)).1).type,
            run.within (tokens.nextVisible (run.position + 1)).2 cache) :=
      rfl
    rw [sameRun, again, continues.token_eq found.2]
    rfl

theorem rejectMismatch
    (holds : run.Holds)
    (grammar : ParserGrammar) :
    Repeats (Parser.rejectMismatch grammar : Walk σ α) run := by
  refine .get (fun continues => ?_) (.reject holds _ _)
  simp only [holds.current_within continues, Run.expected_within]

theorem rejectExtraneous
    (holds : run.Holds)
    (grammar : ParserGrammar) :
    Repeats (Parser.rejectExtraneous grammar : Walk σ α) run := by
  refine .get (fun continues => ?_) (.reject holds _ _)
  simp only [holds.current_within continues, Run.expected_within]

theorem rejectMissing
    (holds : run.Holds)
    (grammar : ParserGrammar) :
    Repeats (Parser.rejectMissing grammar : Walk σ α) run := by
  refine .get (fun continues => ?_) (.reject holds _ _)
  simp only [holds.current_within continues, Run.expected_within]

/-- A token that is no extra one is rejected again in the same way. -/
theorem rejectUnexpected
    (holds : run.Holds)
    (grammar : ParserGrammar)
    (current : Int) :
    Repeats
      (do
        let run ← MonadState.get
        match (grammar.network.state run.state).edges.head? with
        | some first =>
            if (run.expectedAt grammar.network first.target).contains current then
              Parser.rejectMissing grammar
            else
              Parser.rejectMismatch grammar
        | none => Parser.rejectMismatch grammar : Walk σ α) run := by
  refine .get (fun _ => ?_) ?_
  · simp only [Run.expectedAt_within]
    rfl
  · split
    · split
      · exact rejectMissing holds grammar
      · exact rejectMismatch holds grammar
    · exact rejectMismatch holds grammar

theorem rejectCurrent
    (holds : run.Holds)
    (grammar : ParserGrammar) :
    Repeats (Parser.rejectCurrent grammar : Walk σ α) run := by
  refine .get (fun continues => by simp only [holds.current_within continues]) ?_
  dsimp only
  split
  · rename_i notEnd
    have peeks := peekType holds (by simpa [Token.isEnd] using notEnd)
    refine peeks.bind fun after _ => .get (fun _ => by simp only [Run.expected_within]) ?_
    split
    · have rejects :
          Repeats (Parser.rejectExtraneous grammar : Walk σ PUnit)
            (outcome Parser.peekType run).2 :=
        rejectExtraneous peeks.holds grammar
      exact rejects.bind fun _ _ => rejectUnexpected rejects.holds grammar _
    · exact rejectUnexpected peeks.holds grammar _
  · exact rejectUnexpected holds grammar _

/-- Consuming the current token can be repeated. -/
theorem consume (holds : run.Holds) : Repeats Parser.consume run := by
  cases isEnd : run.current.isEnd with
  | true =>
      have isRun :
          ∀ {tokens : TokenStream σ} {cache : PredictionCache},
            run.tokens.Continues tokens →
              outcome Parser.consume (run.within tokens cache) =
                (.ok (),
                  { run.within tokens cache with
                    nodes :=
                      ParseTree.addChild run.nodes run.context (.token run.current)
                    idleSteps := 0 }) := by
        intro tokens cache continues
        rw [outcome_consume]
        simp only [Run.consumed, holds.current_within continues, isEnd, if_true]
        rfl
      exact @of_outcome _ _ _ run _ (.ok ())
        (fun later =>
          { later with
            nodes := ParseTree.addChild run.nodes run.context (.token run.current)
            idleSteps := 0 })
        holds rfl rfl rfl (fun _ _ => rfl) isRun
  | false =>
      have inBounds := holds.inBounds isEnd
      have looked := TokenStream.Continues.nextVisible run.tokens (run.position + 1)
      have found := TokenStream.firstVisible_nextVisible holds.sound inBounds
      have isRun :
          run.consumed =
            { run with
              nodes := ParseTree.addChild run.nodes run.context (.token run.current)
              position := (run.tokens.nextVisible (run.position + 1)).1
              tokens := (run.tokens.nextVisible (run.position + 1)).2
              idleSteps := 0 } := by
        simp only [Run.consumed, isEnd, Bool.false_eq_true, if_false]
      refine ⟨?_, ?_, ?_, ?_⟩ <;> rw [outcome_consume, isRun]
      · exact ⟨looked.sound holds.sound, found.2, holds.cache⟩
      · exact looked
      · exact .refl _
      · intro tokens cache continues _
        have again := TokenStream.nextVisible_again holds.sound inBounds continues
        rw [outcome_consume]
        simp only [Run.consumed, holds.current_within (looked.trans continues), isEnd,
          Bool.false_eq_true, if_false]
        simp only [Run.within, again]

theorem consumeAny
    (holds : run.Holds)
    (grammar : ParserGrammar) :
    Repeats (Parser.consumeAny grammar) run := by
  refine .get (fun continues => by simp only [holds.current_within continues]) ?_
  split
  · exact rejectCurrent holds grammar
  · exact consume holds

theorem checkCurrent
    (holds : run.Holds)
    (grammar : ParserGrammar) :
    Repeats (Parser.checkCurrent grammar) run := by
  refine .get (fun continues => ?_) ?_
  · simp only [holds.current_within continues]
    rfl
  · dsimp only
    split
    · exact .pure holds _
    · split
      · split
        · rename_i notEnd
          have peeks := peekType holds (by simpa using notEnd)
          refine peeks.bind fun _ _ => ?_
          split
          · have rejects :
                Repeats (Parser.rejectExtraneous grammar : Walk σ PUnit)
                  (outcome Parser.peekType run).2 :=
              rejectExtraneous peeks.holds grammar
            exact rejects.bind fun _ _ => rejectMismatch rejects.holds grammar
          · exact rejectMismatch peeks.holds grammar
        · exact rejectMismatch holds grammar
      · split
        · exact rejectExtraneous holds grammar
        · exact .pure holds _

/-- The outcome of a remembered prediction, and the walk behind it. -/
theorem outcome_predictRemembered
    (network : Network)
    (decision : Nat)
    (run : Run σ) :
    outcome (Parser.predictRemembered network decision) run =
      match run.cache.automata[decision]? with
      | none => (.error (.fault .noAutomaton), run)
      | some automaton =>
          let predicted :=
            Prediction.predictRemembered (settingOf network automaton run.precedence)
              ⟨run.cache.store, automaton⟩ run.tokens run.position
          (.ok predicted.1,
            run.within predicted.2.2 (run.cache.remember decision predicted.2.1)) := by
  simp only [Parser.predictRemembered, automatonOf, outcome_bind, outcome_get]
  cases run.cache.automata[decision]? <;> rfl

/-- The outcome of a prediction in context, and the walk behind it. -/
theorem outcome_predictInContext
    (network : Network)
    (decision : Nat)
    (run : Run σ) :
    outcome (Parser.predictInContext network decision) run =
      match run.cache.automata[decision]? with
      | none => (.error (.fault .noAutomaton), run)
      | some automaton =>
          let predicted :=
            Prediction.predictInContext (settingOf network automaton run.precedence)
              automaton.decisionState (run.returnStates network) run.cache.store run.tokens
              run.position
          (.ok predicted.1,
            run.within predicted.2.2 { run.cache with store := predicted.2.1 }) := by
  simp only [Parser.predictInContext, automatonOf, outcome_bind, outcome_get]
  cases run.cache.automata[decision]? <;> rfl

omit [TokenSource σ] in
/-- The setting of a prediction is the same for an automaton that has grown. -/
theorem settingOf_extends
    {automaton later : Automaton}
    (extension : automaton.Extends later)
    (network : Network)
    (precedence : Int) :
    settingOf network later precedence = settingOf network automaton precedence := by
  simp only [settingOf, extension.byPrecedence, extension.decisionState]

/-- Predicting without the real rule invocations can be repeated. -/
theorem predictRemembered
    (holds : run.Holds)
    (network : Network)
    (decision : Nat) :
    Repeats (Parser.predictRemembered network decision) run ∧
      ∀ value,
        (outcome (Parser.predictRemembered network decision) run).1 = .ok value →
          value.IsTaken (outcome (Parser.predictRemembered network decision) run).2.tokens := by
  have isRun := outcome_predictRemembered network decision run
  cases present : run.cache.automata[decision]? with
  | none =>
      simp only [present] at isRun
      refine ⟨⟨?_, ?_, ?_, ?_⟩, ?_⟩ <;> rw [isRun]
      · exact holds
      · exact .refl _
      · exact .refl _
      · intro tokens cache _ extension
        rw [outcome_predictRemembered]
        simp only [Run.within, extension.none present]
      · rintro value ⟨⟩
  | some automaton =>
      simp only [present] at isRun
      have memoryHolds : Prediction.Memory.Holds ⟨run.cache.store, automaton⟩ :=
        ⟨holds.cache.wellMade, holds.cache.each present⟩
      obtain ⟨memoryHolds, learned, continues, isTaken, again⟩ :=
        memoryHolds.remembered_predictRemembered (settingOf network automaton run.precedence)
          holds.sound holds.taken
      generalize isPredicted :
        Prediction.predictRemembered (settingOf network automaton run.precedence)
          ⟨run.cache.store, automaton⟩ run.tokens run.position = predicted
        at isRun memoryHolds learned continues isTaken again
      obtain ⟨value, memory, looked⟩ := predicted
      obtain ⟨cacheHolds, extension⟩ := holds.cache.remember present memoryHolds learned
      refine ⟨⟨?_, ?_, ?_, ?_⟩, ?_⟩ <;> rw [isRun]
      · refine ⟨continues.sound holds.sound, ?_, cacheHolds⟩
        have isThere := continues.kept (Array.getElem?_eq_getElem holds.taken)
        exact (Array.getElem?_eq_some_iff.mp isThere).1
      · exact continues
      · exact extension
      · intro tokens cache furtherTokens larger
        obtain ⟨later, isLater, further⟩ :=
          larger.each (PredictionCache.getElem?_remember present memory)
        have repeated : Prediction.predictRemembered (settingOf network automaton run.precedence)
            ⟨cache.store, later⟩ tokens run.position = (value, ⟨cache.store, later⟩, tokens) :=
          again ⟨larger.store, further⟩ furtherTokens
        rw [outcome_predictRemembered]
        simp only [Run.within, isLater]
        rw [settingOf_extends (learned.automaton.trans further)]
        simp only [Run.precedence] at repeated ⊢
        rw [repeated, PredictionCache.remember_of_present isLater]
      · rintro value ⟨⟩
        exact isTaken

/-- Predicting with the real rule invocations can be repeated. -/
theorem predictInContext
    (holds : run.Holds)
    (network : Network)
    (decision : Nat) :
    Repeats (Parser.predictInContext network decision) run ∧
      ∀ value,
        (outcome (Parser.predictInContext network decision) run).1 = .ok value →
          value.IsTaken (outcome (Parser.predictInContext network decision) run).2.tokens := by
  have isRun := outcome_predictInContext network decision run
  cases present : run.cache.automata[decision]? with
  | none =>
      simp only [present] at isRun
      refine ⟨⟨?_, ?_, ?_, ?_⟩, ?_⟩ <;> rw [isRun]
      · exact holds
      · exact .refl _
      · exact .refl _
      · intro tokens cache _ extension
        rw [outcome_predictInContext]
        simp only [Run.within, extension.none present]
      · rintro value ⟨⟩
  | some automaton =>
      simp only [present] at isRun
      obtain ⟨wellMade, learned, continues, isTaken, again⟩ :=
        Prediction.remembered_predictInContext (settingOf network automaton run.precedence)
          automaton.decisionState (run.returnStates network) holds.cache.wellMade holds.sound
          holds.taken
      generalize isPredicted :
        Prediction.predictInContext (settingOf network automaton run.precedence)
          automaton.decisionState (run.returnStates network) run.cache.store run.tokens
          run.position = predicted
        at isRun wellMade learned continues isTaken again
      obtain ⟨value, store, looked⟩ := predicted
      obtain ⟨cacheHolds, extension⟩ := holds.cache.withStore wellMade learned
      refine ⟨⟨?_, ?_, ?_, ?_⟩, ?_⟩ <;> rw [isRun]
      · refine ⟨continues.sound holds.sound, ?_, cacheHolds⟩
        have isThere := continues.kept (Array.getElem?_eq_getElem holds.taken)
        exact (Array.getElem?_eq_some_iff.mp isThere).1
      · exact continues
      · exact extension
      · intro tokens cache furtherTokens larger
        obtain ⟨later, isLater, further⟩ := larger.each present
        have repeated :
            Prediction.predictInContext (settingOf network automaton run.precedence)
              automaton.decisionState (run.returnStates network) cache.store tokens
              run.position = (value, cache.store, tokens) :=
          again larger.store furtherTokens
        rw [outcome_predictInContext, Run.returnStates_within]
        simp only [Run.within, isLater]
        rw [settingOf_extends further, further.decisionState]
        simp only [Run.precedence] at repeated ⊢
        rw [repeated]
      · rintro value ⟨⟩
        exact isTaken

/-- Rejecting the tokens through one that was taken can be repeated. -/
theorem rejectAlternatives
    (holds : run.Holds)
    {offending : Nat}
    (taken : offending < run.tokens.tokens.size) :
    Repeats (Parser.rejectAlternatives offending : Walk σ α) run := by
  have isRun :
      ∀ {tokens : TokenStream σ} {cache : PredictionCache},
        run.tokens.Continues tokens →
          outcome (Parser.rejectAlternatives offending : Walk σ α) (run.within tokens cache) =
            (.error
              (.syntaxError
                (SyntaxError.atToken (run.tokens.token offending)
                  (let text :=
                    if run.current.isEnd then
                      Token.endText
                    else
                      (run.tokens.text run.position offending).1
                  s!"no viable alternative at input '{Text.escapeBreaks text}'"))),
              run.within tokens cache) := by
    intro tokens cache continues
    have sameStart : tokens.token run.position = run.current := continues.token_eq holds.taken
    have sameOffending := continues.token_eq taken
    have sameText := TokenStream.text_of_taken continues holds.taken taken
    simp only [Parser.rejectAlternatives, outcome_bind, outcome_get, outcome_set, outcome_reject]
    simp only [Run.within, sameStart]
    split
    · simp only [sameOffending]
    · simp only [sameText, sameOffending]
  exact @of_outcome _ _ _ run _ _ id holds rfl rfl rfl (fun _ _ => rfl) isRun

/-- What a prediction comes to can be repeated. -/
theorem conclude
    (holds : run.Holds)
    {outcome : Prediction.Outcome}
    (isTaken : outcome.IsTaken run.tokens) :
    Repeats
      (match outcome with
      | .predicted alternative => Pure.pure alternative
      | .noViableAlternative offending => Parser.rejectAlternatives offending
      | .needsFullContext => Parser.fail .unsettled) run := by
  cases outcome with
  | predicted alternative => exact .pure holds alternative
  | noViableAlternative offending => exact rejectAlternatives holds (isTaken offending rfl)
  | needsFullContext => exact .fail holds .unsettled

/-- Predicting a decision can be repeated. -/
theorem predict
    (holds : run.Holds)
    (network : Network)
    (state : Network.State) :
    Repeats (Parser.predict network state) run := by
  refine requiring holds fun decision _ => ?_
  obtain ⟨remembers, isTaken⟩ := predictRemembered holds network decision
  refine remembers.bind fun first isFirst => ?_
  have firstTaken := isTaken first isFirst
  cases first with
  | needsFullContext =>
      obtain ⟨predicts, isTaken⟩ := predictInContext remembers.holds network decision
      exact predicts.bind fun second isSecond => conclude predicts.holds (isTaken second isSecond)
  | predicted alternative => exact .pure remembers.holds alternative
  | noViableAlternative offending =>
      exact rejectAlternatives remembers.holds (firstTaken offending rfl)

theorem startRound
    (holds : run.Holds)
    (network : Network)
    (state : Network.State)
    (target : Nat) :
    Repeats (Parser.startRound network state target) run := by
  unfold Parser.startRound
  split
  · cases innermost : run.recursions.head? with
    | none =>
        refine @of_outcome _ _ _ run _ (.error (.fault .noRecursion)) id holds rfl rfl rfl
          (fun _ _ => rfl) fun _ => ?_
        simp only [outcome_bind, outcome_get, Run.within, innermost, Parser.require, outcome_fail]
        rfl
    | some outer =>
        refine @of_outcome _ _ _ run _ (.ok ()) (fun run => run.inRound network outer state) holds
          rfl rfl rfl (fun _ _ => rfl) fun _ => ?_
        simp only [outcome_bind, outcome_get, Run.within, innermost, Parser.require, outcome_pure,
          outcome_set]
        rfl
  · exact .pure holds ()

theorem invokeRule
    (holds : run.Holds)
    (network : Network)
    (caller target rule : Nat)
    (precedence : Int) :
    Repeats (Parser.invokeRule network caller target rule precedence) run := by
  refine .change holds ?_ ?_ ?_ fun tokens cache => ?_
  all_goals
    simp only [Run.enterRule_eq]
    split <;> rfl

theorem checkPrecedence
    (holds : run.Holds)
    (grammar : ParserGrammar)
    (highest : Int) :
    Repeats (Parser.checkPrecedence grammar highest) run := by
  refine .get (fun continues => ?_) ?_
  · simp only [holds.current_within continues]
    rfl
  · split
    · exact .reject holds _ _
    · exact .pure holds ()

/-- Crossing an edge can be repeated. -/
theorem crossEdge
    (holds : run.Holds)
    (grammar : ParserGrammar)
    (state : Network.State)
    (edge : Edge) :
    Repeats (Parser.crossEdge grammar state edge) run := by
  have matching :
      ∀ edge : Edge,
        Repeats
          (do
            if edge.consumes (← MonadState.get).current.type minTokenType maxSetTokenType then
              Parser.consumeAny grammar
            else
              Parser.rejectCurrent grammar) run := by
    intro edge
    refine .get (fun continues => by simp only [holds.current_within continues]) ?_
    split
    · exact consumeAny holds grammar
    · exact rejectCurrent holds grammar
  cases edge with
  | epsilon target => exact startRound holds grammar.network state target
  | atom _ label =>
      refine .get (fun continues => by simp only [holds.current_within continues]) ?_
      split
      · exact consume holds
      · exact rejectCurrent holds grammar
  | range target first last => exact matching (.range target first last)
  | set target symbols => exact matching (.set target symbols)
  | notSet target symbols => exact matching (.notSet target symbols)
  | wildcard => exact consumeAny holds grammar
  | call target rule precedence follow => exact invokeRule holds _ _ _ _ _
  | predicate => exact .pure holds ()
  | action => exact .pure holds ()
  | precedence _ highest => exact checkPrecedence holds grammar highest

/-- Leaving a state inside a rule can be repeated. -/
theorem leaveState
    (holds : run.Holds)
    (grammar : ParserGrammar) :
    Repeats (Parser.leaveState grammar) run := by
  refine .get (fun _ => rfl) ?_
  have crossing :
      ∀ {run : Run σ} (state : Network.State) (alternative : Nat),
        run.Holds →
          Repeats
            (do
              let edge ← Parser.require state.edges[alternative - 1]? .noEdge
              Parser.crossEdge grammar state edge
              modify fun run => { run with state := edge.target }) run := by
    intro run state alternative holds
    refine requiring holds fun edge _ => ?_
    have crosses := crossEdge holds grammar state edge
    exact crosses.bind fun _ _ => .change crosses.holds rfl rfl rfl fun _ _ => rfl
  dsimp only
  split
  · have checks := checkCurrent holds grammar
    refine checks.bind fun _ _ => ?_
    have predicts :=
      predict checks.holds grammar.network (grammar.network.state run.state)
    exact predicts.bind fun alternative _ => crossing _ alternative predicts.holds
  · exact crossing _ 1 holds

/-- Leaving a rule can be repeated. -/
theorem leaveRule
    (holds : run.Holds)
    (network : Network) :
    Repeats (Parser.leaveRule network) run := by
  have goesOn :
      ∀ {run : Run σ} (caller : Option Nat),
        run.Holds →
          Repeats
            (do
              let follow ← Parser.require (caller.bind network.followOf?) .notInvoked
              modify fun run => { run with state := follow }) run := by
    intro run caller holds
    exact requiring holds fun follow _ => .change holds rfl rfl rfl fun _ _ => rfl
  have leaves :
      ∀ (change : Run σ → Run σ) (caller : Option Nat),
        Repeats (modify change : Walk σ Unit) run →
          (∀ tokens cache,
            outcome (Parser.leaveRule network) (run.within tokens cache) =
              outcome
                (do
                  modify change
                  let follow ← Parser.require (caller.bind network.followOf?) .notInvoked
                  modify fun run => { run with state := follow })
                (run.within tokens cache)) →
            Repeats (Parser.leaveRule network) run :=
    fun change caller changes same =>
      (changes.bind fun _ _ => goesOn caller changes.holds).congr same
  cases recursive : (network.state run.state).rule.any network.isLeftRecursive with
  | true =>
      cases innermost : run.recursions with
      | nil =>
          refine (Repeats.fail holds .noRecursionToLeave).congr fun tokens cache => ?_
          simp only [Parser.leaveRule, outcome_bind, outcome_get, Run.within, recursive,
            innermost, if_true, outcome_fail]
      | cons outer recursions =>
          refine leaves
            (fun run => { run with recursions := recursions }.leaveRecursion outer.parent)
            outer.caller (.change holds ?_ ?_ ?_ fun tokens cache => ?_) fun tokens cache => ?_
          · cases outer.parent <;> rfl
          · cases outer.parent <;> rfl
          · cases outer.parent <;> rfl
          · exact Run.leaveRecursion_within { run with recursions := recursions } _ _ _
          · simp only [Parser.leaveRule, outcome_bind, outcome_get, Run.within, recursive,
              innermost, if_true, outcome_pure, outcome_set, outcome_modify]
  | false =>
      cases isParent : (run.link run.context).parent with
      | none =>
          refine (Repeats.fail holds .noInvocationToLeave).congr fun tokens cache => ?_
          have noParent : ((run.within tokens cache).link run.context).parent = none := isParent
          simp only [Run.within] at noParent
          simp only [Parser.leaveRule, outcome_bind, outcome_get, Run.within, recursive,
            noParent, Bool.false_eq_true, if_false, Parser.require, outcome_fail]
      | some parent =>
          refine leaves (fun run => { run with context := parent })
            (run.link run.context).caller
            (.change holds rfl rfl rfl fun _ _ => rfl) fun tokens cache => ?_
          have withParent : ((run.within tokens cache).link run.context).parent = some parent :=
            isParent
          simp only [Run.within] at withParent
          simp only [Parser.leaveRule, outcome_bind, outcome_get, Run.within, recursive,
            withParent, Bool.false_eq_true, if_false, Parser.require, outcome_pure, outcome_set,
            outcome_modify]
          rfl

/-- A step of a walk can be repeated. -/
theorem stepOnce
    (holds : run.Holds)
    (grammar : ParserGrammar) :
    Repeats (Parser.stepOnce grammar) run := by
  refine .get (fun _ => rfl) ?_
  split
  · exact leaveRule holds grammar.network
  · exact leaveState holds grammar

/-- One step of a walk can be repeated, be it that the walk gives up or has ended. -/
theorem advance
    (grammar : ParserGrammar)
    (holds : run.Holds) :
    Repeats (Parser.advance grammar) run := by
  have counts : Repeats (modify fun run => run.counted : Walk σ Unit) run :=
    .change holds rfl rfl rfl fun _ _ => rfl
  refine counts.bind fun _ _ => .get (fun _ => rfl) ?_
  split
  · have fails : Repeats (Parser.fail .noProgress : Walk σ PUnit) run.counted :=
      .fail counts.holds .noProgress
    exact fails.bind fun _ impossible => nomatch impossible
  · have ends : Repeats (Parser.atEnd grammar.network) run.counted :=
      .get (fun _ => rfl) (.pure counts.holds _)
    refine ends.bind fun isEnd _ => ?_
    split
    · exact .pure ends.holds true
    · refine .get (fun _ => rfl) ?_
      split
      · have leaves := leaveRule ends.holds grammar.network
        exact leaves.bind fun _ _ => .pure leaves.holds false
      · have leaves := leaveState ends.holds grammar
        exact leaves.bind fun _ _ => .pure leaves.holds false

/-- A whole walk can be repeated if it comes to something. -/
theorem walk
    (grammar : ParserGrammar)
    {comes : Except Failure Unit × Run σ}
    (isRun : Run.walk? grammar run = some comes)
    (holds : run.Holds) :
    Repeats (Parser.walk grammar) run := by
  -- What the walk comes to is the same wherever it is begun along the way.
  have repeats :
      comes.2.Holds ∧ run.tokens.Continues comes.2.tokens ∧ run.cache.Extends comes.2.cache ∧
        ∀ {tokens : TokenStream σ} {cache : PredictionCache},
          comes.2.tokens.Continues tokens →
            comes.2.cache.Extends cache →
              Run.walk? grammar (run.within tokens cache) =
                some (comes.1, comes.2.within tokens cache) := by
    refine walk?_induction
      (fun run comes => run.Holds →
        comes.2.Holds ∧ run.tokens.Continues comes.2.tokens ∧ run.cache.Extends comes.2.cache ∧
          ∀ {tokens : TokenStream σ} {cache : PredictionCache},
            comes.2.tokens.Continues tokens →
              comes.2.cache.Extends cache →
                Run.walk? grammar (run.within tokens cache) =
                  some (comes.1, comes.2.within tokens cache))
      ?_ ?_ ?_ isRun holds
    · intro run next comes goesOn inductionHypothesis holds
      obtain ⟨nextHolds, continues, extension, again⟩ := advance grammar holds
      rw [goesOn] at nextHolds continues extension again
      obtain ⟨lastHolds, further, extended, repeated⟩ := inductionHypothesis nextHolds
      refine ⟨lastHolds, continues.trans further, extension.trans extended, ?_⟩
      intro tokens cache later known
      rw [walk?_of_goesOn (again (further.trans later) (extended.trans known))]
      exact repeated later known
    · intro run next ended holds
      obtain ⟨nextHolds, continues, extension, again⟩ := advance grammar holds
      rw [ended] at nextHolds continues extension again
      exact ⟨nextHolds, continues, extension,
        fun later known => walk?_of_ended (again later known)⟩
    · intro run next failure failed holds
      obtain ⟨nextHolds, continues, extension, again⟩ := advance grammar holds
      rw [failed] at nextHolds continues extension again
      exact ⟨nextHolds, continues, extension,
        fun later known => walk?_of_failed (again later known)⟩
  obtain ⟨result, last⟩ := comes
  obtain ⟨lastHolds, continues, extension, again⟩ := repeats
  have atFirst : outcome (Parser.walk grammar) run = (result, last) := outcome_walk_of_some isRun
  refine ⟨?_, ?_, ?_, ?_⟩ <;> rw [atFirst]
  · exact lastHolds
  · exact continues
  · exact extension
  · exact fun later known => outcome_walk_of_some (again later known)

/-- Leaving the rule that a walk began with can be repeated. -/
theorem leaveFirst
    (holds : run.Holds)
    (network : Network)
    (rule : Nat) :
    Repeats (Parser.leaveFirst network rule) run := by
  unfold Parser.leaveFirst
  split
  · cases innermost : run.recursions with
    | nil =>
        refine (Repeats.fail holds .noRecursionToLeave).congr fun tokens cache => ?_
        simp only [outcome_bind, outcome_get, Run.within, innermost, outcome_fail]
    | cons outer recursions =>
        have changes :
            Repeats
              (modify fun run =>
                { run with recursions := recursions }.leaveRecursion outer.parent : Walk σ Unit)
              run := by
          refine .change holds ?_ ?_ ?_ fun tokens cache => ?_
          · cases outer.parent <;> rfl
          · cases outer.parent <;> rfl
          · cases outer.parent <;> rfl
          · exact Run.leaveRecursion_within { run with recursions := recursions } _ _ _
        refine (changes.bind fun _ _ => .pure changes.holds run.context).congr
          fun tokens cache => ?_
        simp only [outcome_bind, outcome_get, Run.within, innermost, outcome_set,
          outcome_modify, outcome_pure]
  · exact .get (fun _ => rfl) (.pure holds _)

/-- Entering the rule that a walk begins with can be repeated. -/
theorem begun
    (holds : run.Holds)
    (network : Network)
    (rule : Nat) :
    Repeats (modify fun run => run.begun network rule : Walk σ Unit) run := by
  refine .change holds ?_ ?_ ?_ fun tokens cache => ?_
  all_goals
    simp only [Run.begun, Run.enterRule_eq]
    split <;> rfl

/-- Parsing a rule can be repeated if its walk comes to something. -/
theorem parseRule
    (holds : run.Holds)
    (grammar : ParserGrammar)
    (rule : Nat)
    {comes : Except Failure Unit × Run σ}
    (isRun : Run.walk? grammar (run.begun grammar.network rule) = some comes) :
    Repeats (Parser.parseRule grammar rule) run := by
  rw [parseRule_eq]
  have begins := begun holds grammar.network rule
  refine begins.bind fun _ _ => ?_
  have walks := walk grammar isRun begins.holds
  exact walks.bind fun _ _ => leaveFirst walks.holds grammar.network rule

end Repeats

/-- Parsing a rule only takes tokens, whatever it comes to. -/
theorem Run.Holds.continues_parseRule
    (holds : run.Holds)
    (grammar : ParserGrammar)
    (rule : Nat) :
    run.tokens.Continues (outcome (parseRule grammar rule) run).2.tokens := by
  cases isWalk : Run.walk? grammar (run.begun grammar.network rule) with
  | none =>
      rw [outcome_parseRule_of_none isWalk, Run.tokens_begun]
      exact .refl _
  | some comes => exact (Repeats.parseRule holds grammar rule isWalk).continues

section Starting

variable {tokens : TokenStream σ} {cache : PredictionCache}

/-- A walk begins at a token that was taken. -/
theorem Run.holds_start
    (sound : tokens.Sound)
    (holds : cache.Holds) :
    (Run.start tokens cache).Holds where
  sound := (TokenStream.Continues.nextVisible tokens 0).sound sound
  taken := (TokenStream.firstVisible_nextVisible sound sound.size_all_pos).2
  cache := holds

/-- A walk that begins once more begins in the same place. -/
theorem Run.start_again
    (sound : tokens.Sound)
    {later : TokenStream σ}
    (continues : (Run.start tokens cache).tokens.Continues later)
    (laterCache : PredictionCache) :
    Run.start later laterCache = (Run.start tokens cache).within later laterCache := by
  have again := TokenStream.nextVisible_again sound sound.size_all_pos continues
  simp only [Run.start, again, Run.within]

end Starting

/-- A parser that can be invoked: its tokens come without errors, and its cache is in order. -/
structure Ready (parser : Parser σ) : Prop where
  sound : parser.tokens.Sound
  errorFree : parser.tokens.ErrorFree
  cache : parser.cache.Holds

/-- What an invocation comes to when no errors come with the tokens. -/
theorem invokeNumber_eq
    {parser : Parser σ}
    {rule : Nat}
    {result : Except Failure Nat}
    {last : Run σ}
    (isRun :
      outcome (parseRule parser.grammar rule) (Run.start parser.tokens parser.cache) =
        (result, last))
    (errorFree : last.tokens.ErrorFree) :
    parser.invokeNumber rule =
      (resultOf [] last.nodes result,
        { parser with tokens := last.tokens, cache := last.cache }) := by
  simp only [outcome] at isRun
  simp only [invokeNumber, isRun, errorFree.takeErrors_eq]

/-- The parser behind an invocation of each rule of a list. -/
def afterInvoking
    (parser : Parser σ)
    (rules : List String) :
    Parser σ :=
  rules.foldl (fun parser rule => (parser.invoke rule).2) parser

namespace Ready

variable {parser : Parser σ}

/-- A new parser is ready. -/
theorem ofStream
    (grammar : ParserGrammar)
    {source : σ}
    (errorFree : (TokenStream.ofSource source).ErrorFree) :
    (Parser.ofStream grammar (TokenStream.ofSource source)).Ready where
  sound := .ofSource source
  errorFree := errorFree
  cache := PredictionCache.holds_initial grammar.network

/-- A parser stays ready when it has parsed a rule, and parsing the rule again changes nothing. -/
theorem invokeNumber
    (ready : parser.Ready)
    (rule : Nat) :
    (parser.invokeNumber rule).2.Ready ∧
      (parser.invokeNumber rule).2.invokeNumber rule = parser.invokeNumber rule := by
  cases isWalk :
    Run.walk? parser.grammar
      ((Run.start parser.tokens parser.cache).begun parser.grammar.network rule) with
  | none =>
      -- A walk that never ends leaves the tokens and the cache as they were when it began.
      have isRun := outcome_parseRule_of_none isWalk
      generalize isFirst :
        (Run.start parser.tokens parser.cache).begun parser.grammar.network rule = first at isRun
      have tokens : first.tokens = (Run.start parser.tokens parser.cache).tokens := by
        rw [← isFirst, Run.tokens_begun]
      have cache : first.cache = parser.cache := by
        rw [← isFirst, Run.cache_begun]
        rfl
      have again :
          Run.start first.tokens first.cache = Run.start parser.tokens parser.cache := by
        rw [tokens, cache, Run.start_again ready.sound (.refl _)]
        rfl
      have isSecond := isRun
      rw [← again] at isSecond
      have holds := Run.holds_start ready.sound ready.cache
      have errorFree : first.tokens.ErrorFree := by
        rw [tokens]
        exact ready.errorFree.continues (TokenStream.Continues.nextVisible _ 0)
      rw [invokeNumber_eq isRun errorFree]
      exact ⟨⟨tokens ▸ holds.sound, errorFree, cache ▸ ready.cache⟩,
        invokeNumber_eq isSecond errorFree⟩
  | some comes =>
      have repeats :=
        Repeats.parseRule (Run.holds_start ready.sound ready.cache) parser.grammar rule isWalk
      cases isRun :
        outcome (parseRule parser.grammar rule) (Run.start parser.tokens parser.cache) with
      | mk result last =>
          have lastHolds := repeats.holds
          have continues := repeats.continues
          have again := @repeats.again last.tokens last.cache
          rw [isRun] at lastHolds continues again
          have errorFree :=
            (ready.errorFree.continues (TokenStream.Continues.nextVisible _ 0)).continues continues
          have isSecond :
              outcome (parseRule parser.grammar rule) (Run.start last.tokens last.cache) =
                (result, last) := by
            rw [Run.start_again ready.sound continues]
            exact again (.refl _) (.refl _)
          rw [invokeNumber_eq isRun errorFree]
          exact ⟨⟨lastHolds.sound, errorFree, lastHolds.cache⟩,
            invokeNumber_eq isSecond errorFree⟩

/-- A parser stays ready when a rule was invoked, and invoking it again changes nothing. -/
theorem invoke
    (ready : parser.Ready)
    (rule : String) :
    (parser.invoke rule).2.Ready ∧ (parser.invoke rule).2.invoke rule = parser.invoke rule := by
  cases found : parser.grammar.ruleNames.findIdx? (· == rule) with
  | none =>
      have isUnknown : parser.invoke rule = (.error (.unknownRule rule), parser) := by
        simp only [Parser.invoke, found]
      rw [isUnknown]
      exact ⟨ready, isUnknown⟩
  | some number =>
      have isNumber : parser.invoke rule = parser.invokeNumber number := by
        simp only [Parser.invoke, found]
      have sameGrammar : (parser.invokeNumber number).2.grammar = parser.grammar := rfl
      obtain ⟨stays, again⟩ := ready.invokeNumber number
      rw [isNumber]
      refine ⟨stays, ?_⟩
      simp only [Parser.invoke, sameGrammar, found, again]

/-- A parser stays ready when rules were invoked. -/
theorem afterInvoking
    (ready : parser.Ready)
    (rules : List String) :
    (parser.afterInvoking rules).Ready := by
  induction rules generalizing parser with
  | nil => exact ready
  | cons rule rules inductionHypothesis => exact inductionHypothesis (ready.invoke rule).1

end Ready

/--
Whatever rules were parsed before, a rule that is parsed again right after it was parsed gives the
same result, be it a tree or an error. The parser has learned nothing and has taken no token.
-/
theorem invoke_again
    {source : σ}
    (errorFree : (TokenStream.ofSource source).ErrorFree)
    (grammar : ParserGrammar)
    (earlier : List String)
    (rule : String) :
    let parser := (ofStream grammar (TokenStream.ofSource source)).afterInvoking earlier
    (parser.invoke rule).2.invoke rule = parser.invoke rule :=
  (((Ready.ofStream grammar errorFree).afterInvoking earlier).invoke rule).2

/-- The suffix `+` is parsed a third time as it was the second time. -/
theorem Suffixes.invoke_third :
    (TokenStream.ofSource (ListedTokens.ofList [(1, "i", 0), (2, "+", 0)])).ErrorFree ∧
      let parser :=
        (ofStream Suffixes.grammar
          (TokenStream.ofSource (ListedTokens.ofList [(1, "i", 0), (2, "+", 0)]))).afterInvoking
            ["e"]
      (parser.invoke "e").2.invoke "e" = parser.invoke "e" :=
  ⟨TokenStream.errorFree_listed _,
    invoke_again (TokenStream.errorFree_listed _) Suffixes.grammar ["e"] "e"⟩

end Parser

end GrammarService
