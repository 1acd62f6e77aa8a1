import GrammarService.Proofs.Network.FreeWalks
import GrammarService.Proofs.Parser.Faults
import GrammarService.Proofs.Parser.Progress
import GrammarService.Proofs.Prediction.Simulation

namespace GrammarService

/-!
# How a walk spends its steps between two tokens

A walk is at a place of its network: in a state, with what its unfinished invocations return to. A
step that consumes nothing is a free step from place to place, and the progress counter counts just
these. So a walk is given up if the network leads it so far without a token.

In a network without loops each place can be come to only once between two tokens. Still there are
many places: their number grows with the number of unfinished invocations, which the input decides,
and inside an invocation it can double with every rule. The progress counter knows of neither.
-/

namespace Network

variable {network : Network}

/-- A walk without a token has one way to go only, and no rule is left-recursive. -/
structure Unbranched (network : Network) : Prop where
  free :
    ∀ {number : Nat} {edge : Edge},
      (network.state number).kind ≠ .ruleStop →
        edge ∈ (network.state number).edges →
          edge.isFree = true →
            (network.state number).kind ≠ .starLoopEntry ∧
              (network.state number).edges = [.epsilon edge.target none]
  notRecursive : ∀ number : Nat, (network.state number).leftRecursiveRule = false

/-- Whether a state has one way to go only without a token. -/
def isUnbranched
    (network : Network)
    (number : Nat) :
    Bool :=
  let state := network.state number
  !state.leftRecursiveRule &&
    (state.kind = .ruleStop ||
      state.edges.all fun edge =>
        !edge.isFree ||
          state.kind ≠ .starLoopEntry && state.edges == [.epsilon edge.target none])

/-- The check of unbranched networks can be trusted. -/
theorem unbranched_of_isUnbranched
    (checked : (List.range network.states.size).all network.isUnbranched = true) :
    network.Unbranched := by
  have checkedAt := forall_state checked
  simp only [isUnbranched, Bool.and_eq_true, Bool.or_eq_true, Bool.not_eq_true',
    decide_eq_true_eq, List.all_eq_true, beq_iff_eq] at checkedAt
  refine ⟨fun {number edge} inside member isFree => ?_, fun number => ?_⟩
  · rcases checkedAt number with holds | isBare
    · exact ((holds.2.resolve_left inside) edge member).resolve_left (by simp [isFree])
    · simp [isBare, State.bare] at member
  · rcases checkedAt number with holds | isBare
    · exact holds.1
    · simp [isBare, State.bare]

/-- A walk can be stopped before its end. -/
theorem FreeWalk.take
    {steps count : Nat}
    {first last : Place}
    (walk : FreeWalk network steps first last)
    (fewer : count ≤ steps) :
    ∃ middle, FreeWalk network count first middle := by
  induction walk generalizing count with
  | @stay place =>
      obtain rfl : count = 0 := by omega
      exact ⟨place, .stay⟩
  | @step steps first second last step rest inductionHypothesis =>
      cases count with
      | zero => exact ⟨first, .stay⟩
      | succ count =>
          obtain ⟨middle, walk⟩ := inductionHypothesis (by omega : count ≤ steps)
          exact ⟨middle, .step step walk⟩

end Network

namespace Parser

open GrammarService.Network (FreeStep FreeWalk)

variable {σ : Type}

/-- The place of the network that a walk is at, with some unfinished invocations. -/
def Run.place
    (run : Run σ)
    (invocations : List Invocation) :
    Place :=
  ⟨run.state, invocations.filterMap Invocation.follow⟩

/-- Every invocation but the outermost has a place where the calling rule goes on. -/
theorem Called.length_follows
    {network : Network}
    {first : Nat}
    {invocations : List Invocation}
    (called : Called network first invocations) :
    (invocations.filterMap Invocation.follow).length + 1 = invocations.length := by
  induction called with
  | first => rfl
  | call _ _ _ _ inductionHypothesis => simpa using inductionHypothesis

variable [TokenSource σ] {run after : Run σ}

section Steps

variable
  {network : Network}
  {first : Nat}
  {inner : Invocation}
  {outer : List Invocation}
  (shaped : network.CompilerShaped)
  (coherent : network.Coherent)
  (tracked : Tracked network first run inner outer)

include shaped coherent tracked

/-- A move consumes a token, or it is a free step. -/
theorem Tracked.consumes_or_drifts
    (moves : Moves network run after) :
    after.idleSteps = 0 ∨
      after.idleSteps = run.idleSteps ∧
        FreeStep network (run.place (inner :: outer))
          (after.place (invocationsBehind network run (inner :: outer))) := by
  cases moves with
  | @free edge inside present isFree =>
      refine .inr ⟨rfl, ?_⟩
      rw [invocationsBehind_of_not_call shaped inside present
        (Edge.not_isCall_of_isFree isFree)]
      exact .edge inside present isFree
  | @round edge _ inside present isFree =>
      refine .inr ⟨rfl, ?_⟩
      rw [invocationsBehind_of_not_call shaped inside present
        (Edge.not_isCall_of_isFree isFree)]
      exact .edge inside present isFree
  | token => exact .inl rfl
  | @call target rule follow precedence inside present =>
      have begins :
          invocationsBehind network run (inner :: outer) =
            ⟨rule, precedence, ⟨some run.context, some run.state⟩, some follow⟩ ::
              inner :: outer := by
        simp [invocationsBehind, inside, shaped.alone present rfl]
      rw [begins, Run.invoking_eq tracked.linked]
      exact .inr ⟨rfl, .call inside present⟩
  | leave stopped plain linked goesOn =>
      rw [tracked.link_context] at linked
      obtain ⟨_, follow, around, others, _, isFollow, rfl, isOther, _⟩ :=
        tracked.called_of_link shaped coherent (congrArg Link.caller linked)
      rw [goesOn] at isOther
      cases isOther
      refine .inr ⟨rfl, ?_⟩
      simp only [Run.place, invocationsBehind, stopped, if_true, List.tail_cons,
        List.filterMap_cons, isFollow]
      exact .leave stopped
  | @leaveRecursion outerLink recursions caller follow stopped recursive innermost linked goesOn =>
      have isRecursive : network.isLeftRecursive inner.rule = true := by
        simpa [tracked.ofRule] using recursive
      have isLink : outerLink = inner.link := by
        rw [(tracked.recursions_eq isRecursive).1] at innermost
        exact (List.cons.inj innermost).1.symm
      subst isLink
      obtain ⟨parent, _, around, others, link, isFollow, rfl, isOther, _⟩ :=
        tracked.called_of_link shaped coherent linked
      rw [goesOn] at isOther
      cases isOther
      refine .inr ⟨by rw [link]; rfl, ?_⟩
      simp only [Run.place, invocationsBehind, stopped, if_true, List.tail_cons,
        List.filterMap_cons, isFollow]
      exact .leave stopped

end Steps

section Rounds

variable
  {grammar : ParserGrammar}
  (shaped : grammar.network.CompilerShaped)
  (coherent : grammar.network.Coherent)
  {tokens : TokenStream σ}
  {cache : PredictionCache}
  {rule : Nat}
  {invocations : List Invocation}

/-- A round of a walk consumes a token, or it is a free step that is counted. -/
theorem Tracked.consumes_or_counts
    {first : Nat}
    {inner : Invocation}
    {outer : List Invocation}
    (shaped : grammar.network.CompilerShaped)
    (coherent : grammar.network.Coherent)
    (tracked : Tracked grammar.network first run inner outer)
    (goesOn : outcome (Parser.advance grammar) run = (.ok false, after)) :
    after.idleSteps = 0 ∨
      after.idleSteps = run.idleSteps + 1 ∧
        FreeStep grammar.network (run.place (inner :: outer))
          (after.place (invocationsBehind grammar.network run (inner :: outer))) := by
  obtain ⟨-, -, stepped⟩ := goesOn_iff.mp goesOn
  obtain ⟨between, quiet, moves⟩ := Ends.moves_of_stepOnce stepped
  have state : between.state = run.state := by
    rw [quiet.same]
    rfl
  have context : between.context = run.context := by
    rw [quiet.same]
    rfl
  have idleSteps : between.idleSteps = run.idleSteps + 1 := by
    rw [quiet.same]
    rfl
  have drifts := (tracked.counted.quiet quiet).consumes_or_drifts shaped coherent moves
  simpa only [idleSteps, Run.place, invocationsBehind, state, context] using drifts

/-- What a walk comes to in some rounds it comes to with some unfinished invocations. -/
theorem Unfinished.exists_of_advances
    {start : Run σ}
    {count : Nat}
    (unfinished : Unfinished grammar start rule run invocations)
    (advances : Advances grammar count run after) :
    ∃ later, Unfinished grammar start rule after later := by
  induction advances generalizing invocations with
  | stay => exact ⟨invocations, unfinished⟩
  | step goesOn _ inductionHypothesis => exact inductionHypothesis (unfinished.step goesOn)

/-- A walk comes to each of its unfinished states in some rounds. -/
theorem Unfinished.exists_advances
    {start : Run σ}
    (unfinished : Unfinished grammar start rule run invocations) :
    ∃ count, Advances grammar count (start.begun grammar.network rule) run := by
  induction unfinished with
  | begun => exact ⟨0, .stay⟩
  | step _ goesOn inductionHypothesis =>
      obtain ⟨count, advances⟩ := inductionHypothesis
      exact ⟨count + 1, advances.trans (.step goesOn .stay)⟩

/-- No step is counted when a walk begins. -/
@[simp] theorem Run.idleSteps_begun
    (network : Network)
    (rule : Nat) :
    ((Run.start tokens cache).begun network rule).idleSteps = 0 := by
  unfold Run.begun
  simp only [Run.enterRule_eq]
  split <;> rfl

include shaped coherent

/-- The progress counter never exceeds its limit. -/
theorem Unfinished.idleSteps_le
    (inRules : rule < grammar.network.ruleCount)
    (unfinished : Unfinished grammar (Run.start tokens cache) rule run invocations) :
    run.idleSteps ≤ idleLimit grammar.network := by
  cases unfinished with
  | begun => simp
  | step unfinished goesOn =>
      obtain ⟨inner, outer, rfl, tracked⟩ := unfinished.tracked shaped coherent inRules
      obtain ⟨notIdle, -, -⟩ := goesOn_iff.mp goesOn
      rcases tracked.consumes_or_counts shaped coherent goesOn with fresh | ⟨counted, -⟩
      · omega
      · omega

/-- The counted steps of a walk are free steps from where it began or consumed its last token. -/
theorem Unfinished.exists_freeWalk
    (inRules : rule < grammar.network.ruleCount)
    (unfinished : Unfinished grammar (Run.start tokens cache) rule run invocations) :
    ∃ first before,
      Unfinished grammar (Run.start tokens cache) rule first before ∧
        first.idleSteps = 0 ∧
          FreeWalk grammar.network run.idleSteps (first.place before) (run.place invocations) := by
  induction unfinished with
  | begun => exact ⟨_, _, .begun, by simp, by rw [Run.idleSteps_begun]; exact .stay⟩
  | @step run after invocations unfinished goesOn inductionHypothesis =>
      obtain ⟨inner, outer, rfl, tracked⟩ := unfinished.tracked shaped coherent inRules
      rcases tracked.consumes_or_counts shaped coherent goesOn with fresh | ⟨counted, drifts⟩
      · exact ⟨after, _, unfinished.step goesOn, fresh, by rw [fresh]; exact .stay⟩
      · obtain ⟨first, before, isFirst, fresh, walk⟩ := inductionHypothesis
        exact ⟨first, before, isFirst, fresh, by rw [counted]; exact walk.snoc drifts⟩

omit coherent in
/-- Where there is one way to go only, a walk goes it. -/
theorem Tracked.goesOn_of_freeStep
    (unbranched : grammar.network.Unbranched)
    {first : Nat}
    {inner : Invocation}
    {outer : List Invocation}
    (tracked : Tracked grammar.network first run inner outer)
    (notIdle : run.idleSteps < idleLimit grammar.network)
    {next : Place}
    (step : FreeStep grammar.network (run.place (inner :: outer)) next) :
    ∃ after,
      outcome (Parser.advance grammar) run = (.ok false, after) ∧
        after.idleSteps = run.idleSteps + 1 ∧
          after.place (invocationsBehind grammar.network run (inner :: outer)) = next := by
  have one :
      ∀ {after : Run σ},
        Advances grammar 1 run after → outcome (Parser.advance grammar) run = (.ok false, after) := by
    intro after advances
    cases advances with
    | step goesOn rest =>
        cases rest
        exact goesOn
  generalize isReturns : (inner :: outer).filterMap Invocation.follow = returns
  have isPlace : run.place (inner :: outer) = ⟨run.state, returns⟩ := by
    rw [Run.place, isReturns]
  rw [isPlace] at step
  cases step with
  | @edge _ _ edge inside present isFree =>
      obtain ⟨notEntry, single⟩ := unbranched.free inside present isFree
      refine ⟨_, one (.free notIdle inside notEntry single), rfl, ?_⟩
      rw [invocationsBehind_of_not_call shaped inside present
        (Edge.not_isCall_of_isFree isFree)]
      exact congrArg _ isReturns
  | @call _ target rule follow precedence _ inside present =>
      have single := shaped.alone present rfl
      have begins :
          invocationsBehind grammar.network run (inner :: outer) =
            ⟨rule, precedence, ⟨some run.context, some run.state⟩, some follow⟩ ::
              inner :: outer := by
        simp [invocationsBehind, inside, single]
      refine ⟨_, one (.call notIdle inside single), ?_, ?_⟩
      · rw [Run.invoking_eq (show run.counted.links.size = run.counted.nodes.size from
          tracked.linked)]
        rfl
      · rw [begins, ← isReturns]
        rfl
  | @leave _ follow _ stopped =>
      have isLink := tracked.link_context
      have called := tracked.called
      cases called with
      | first => simp [Invocation.first] at isReturns
      | @call around others caller context target rule behind precedence _ _ _ present =>
          simp only [List.filterMap_cons, List.cons.injEq] at isReturns
          obtain ⟨rfl, isOuter⟩ := isReturns
          have plain :
              (grammar.network.state run.state).rule.any grammar.network.isLeftRecursive =
                false := by
            rw [tracked.ofRule]
            exact unbranched.notRecursive _
          refine ⟨_, one (.leave notIdle stopped plain isLink (shaped.followOf?_eq present)), rfl, ?_⟩
          simp only [Run.place, invocationsBehind, stopped, if_true, List.tail_cons]
          exact congrArg _ isOuter

/-- A walk goes as far as the network leads it without a token, unless it is given up. -/
theorem Unfinished.goesOn_of_freeWalk
    (unbranched : grammar.network.Unbranched)
    (inRules : rule < grammar.network.ruleCount)
    {steps : Nat}
    {next : Place}
    (unfinished : Unfinished grammar (Run.start tokens cache) rule run invocations)
    (walk : FreeWalk grammar.network steps (run.place invocations) next)
    (few : run.idleSteps + steps ≤ idleLimit grammar.network) :
    ∃ after later,
      Unfinished grammar (Run.start tokens cache) rule after later ∧
        after.idleSteps = run.idleSteps + steps ∧ after.place later = next := by
  generalize isPlace : run.place invocations = place at walk
  induction walk generalizing run invocations with
  | stay => exact ⟨run, invocations, unfinished, rfl, isPlace⟩
  | step step _ inductionHypothesis =>
      subst isPlace
      obtain ⟨inner, outer, rfl, tracked⟩ := unfinished.tracked shaped coherent inRules
      obtain ⟨after, goesOn, counted, isNext⟩ :=
        tracked.goesOn_of_freeStep shaped unbranched (by omega) step
      obtain ⟨last, later, isLast, countedAll, isPlace⟩ :=
        inductionHypothesis (unfinished.step goesOn) (by omega) isNext
      exact ⟨last, later, isLast, by omega, isPlace⟩

omit shaped coherent in
/-- A walk whose counter comes to the limit is given up in its next round. -/
theorem Unfinished.gives_up
    (unfinished : Unfinished grammar (Run.start tokens cache) rule run invocations)
    (isIdle : run.idleSteps = idleLimit grammar.network) :
    (outcome (parseRule grammar rule) (Run.start tokens cache)).1 =
      .error (.fault .noProgress) := by
  obtain ⟨count, advances⟩ := unfinished.exists_advances
  have fails : outcome (Parser.advance grammar) run = (.error (.fault .noProgress), run.counted) :=
    fails_iff.mpr (.inl ⟨by omega, rfl, rfl⟩)
  have isWalk := advances.walk?_eq.trans (walk?_of_failed fails)
  rw [parseRule_eq, outcome_bind, outcome_modify]
  dsimp only
  rw [outcome_bind, outcome_walk_of_some isWalk]

end Rounds

/-- A parser gives up a rule exactly if the walk of the rule comes to the limit of its counter. -/
theorem WellKept.noProgress_iff
    {parser : Parser σ}
    (shaped : parser.grammar.network.CompilerShaped)
    (coherent : parser.grammar.network.Coherent)
    (leadsOn : parser.grammar.network.LeadsOn)
    (kept : parser.WellKept)
    {rule : Nat}
    (inRules : rule < parser.grammar.network.ruleCount) :
    (parser.invokeNumber rule).1 = .error (.fault .noProgress) ↔
      ∃ run invocations,
        Unfinished parser.grammar (Run.start parser.tokens parser.cache) rule run invocations ∧
          run.idleSteps = idleLimit parser.grammar.network := by
  constructor
  · intro isFault
    rcases (kept.invokeNumber shaped coherent leadsOn inRules).2 _ isFault with
      impossible | ⟨-, count, last, advances, isIdle⟩
    · cases impossible
    · obtain ⟨invocations, unfinished⟩ := Unfinished.begun.exists_of_advances advances
      exact ⟨last, invocations, unfinished,
        Nat.le_antisymm (unfinished.idleSteps_le shaped coherent inRules) isIdle⟩
  · rintro ⟨run, invocations, unfinished, isIdle⟩
    exact invokeNumber_of_fault (unfinished.gives_up isIdle)

/--
A parser gives up exactly where the progress counter of its walk comes to the limit. What the
counter counts are free steps since the last consumed token, and in a network without loops their
number is bounded by a constant for each unfinished invocation. So no parse is given up whose
invocations are few enough; otherwise it may be, though it does not loop.
-/
theorem noProgress_iff_of_nonLooping
    {name : String}
    {data : RecognizerData}
    {grammar : ParserGrammar}
    (isGrammar : ParserGrammar.ofData name data = .ok grammar)
    (shaped : grammar.network.CompilerShaped)
    (leadsOn : grammar.network.LeadsOn)
    (nonLooping : grammar.network.NonLooping)
    (source : σ)
    (earlier : List String)
    {rule : Nat}
    (inRules : rule < grammar.network.ruleCount) :
    let parser := (ofStream grammar (TokenStream.ofSource source)).afterInvoking earlier
    let start := Run.start parser.tokens parser.cache
    ((parser.invokeNumber rule).1 = .error (.fault .noProgress) ↔
        ∃ run invocations,
          Unfinished grammar start rule run invocations ∧
            run.idleSteps = idleLimit grammar.network) ∧
      ∀ run invocations,
        Unfinished grammar start rule run invocations →
          ∃ first before,
            Unfinished grammar start rule first before ∧ first.idleSteps = 0 ∧
              FreeWalk grammar.network run.idleSteps (first.place before)
                  (run.place invocations) ∧
                run.idleSteps <
                  grammar.network.innerBound grammar.network.ruleCount * before.length := by
  obtain ⟨coherent, named⟩ := coherent_of_ofData isGrammar
  obtain ⟨kept, same⟩ :=
    (WellKept.ofSource grammar source).afterInvoking shaped coherent leadsOn named earlier
  have sameGrammar :
      ((ofStream grammar (TokenStream.ofSource source)).afterInvoking earlier).grammar =
        grammar :=
    same
  intro parser start
  refine ⟨?_, fun run invocations unfinished => ?_⟩
  · have isIff :=
      kept.noProgress_iff (same ▸ shaped) (same ▸ coherent) (same ▸ leadsOn)
        (sameGrammar ▸ inRules)
    rw [sameGrammar] at isIff
    exact isIff
  · obtain ⟨first, before, isFirst, fresh, walk⟩ :=
      unfinished.exists_freeWalk shaped coherent inRules
    obtain ⟨inner, outer, rfl, tracked⟩ := isFirst.tracked shaped coherent inRules
    have bounded :=
      walk.lt_bound coherent (nonLooping.acyclic shaped.toRuleShaped)
        (Network.callsAtMost_ruleCount shaped.toRuleShaped coherent)
    rw [tracked.called.length_follows] at bounded
    exact ⟨first, _, isFirst, fresh, walk, bounded⟩

namespace Doubling

/--
The encoded network of `s : r0 EOF ;` and of rules `r0` to `r15`, each of which is the next one
twice and the last of which is empty. Rule `r` has the states `3 * r` to `3 * r + 2`.
-/
def encoded : List Int :=
  [4, 1, 1, 52] ++
    ((List.range 16).flatMap fun rule => [2, (rule : Int), 1, (rule : Int), 7, (rule : Int)]) ++
    [2, 16, 1, 16, 1, 16, 7, 16, 0, 0, 17] ++
    ((List.range 17).map fun rule => 3 * (rule : Int)) ++
    [0, 0, 35] ++
    ((List.range 15).flatMap fun rule =>
      let state : Int := 3 * rule
      [state, state + 1, 3, state + 3, rule + 1, 0,
        state + 1, state + 2, 3, state + 3, rule + 1, 0]) ++
    [45, 46, 1, 0, 0, 0, 46, 47, 1, 0, 0, 0,
      48, 49, 3, 0, 0, 0, 49, 50, 5, 0, 0, 1, 50, 51, 1, 0, 0, 0,
      0]

/-- The data of the parser. -/
def data : RecognizerData where
  literalNames := [none]
  symbolicNames := []
  ruleNames := (List.range 16).map (fun rule => "r" ++ toString rule) ++ ["s"]
  channelNames := []
  modeNames := []
  encodedNetwork := encoded

/-- The grammar itself. -/
@[irreducible]
def grammar : ParserGrammar :=
  (ParserGrammar.ofData "Doubling" data).toOption.getD default

/-- A parser of no tokens but the end of the input. -/
def parser : Parser ListedTokens :=
  ofStream grammar (TokenStream.ofSource (ListedTokens.ofList []))

/-- The states of the start rule rank below the others. -/
def rank (number : Nat) : Nat :=
  if 48 ≤ number then number - 48 else number + 4

/-- The walk of the start rule. -/
def start : Run ListedTokens :=
  Run.start parser.tokens parser.cache

/-- The grammar passes the checks of its layout. -/
theorem checks :
    (ParserGrammar.ofData "Doubling" data).isOk = true ∧
      grammar.network.checkShape = true ∧ grammar.network.checkLeadsOn = true ∧
        grammar.network.checkPlain = true ∧
          (List.range grammar.network.states.size).all (grammar.network.checkClimbing rank) = true ∧
            (List.range grammar.network.states.size).all grammar.network.isUnbranched = true ∧
              (List.range grammar.network.states.size).all
                  (fun number =>
                    (grammar.network.state number).edges.all fun edge =>
                      (!edge.consumes endOfInput 0 grammar.network.maxTokenType ||
                          number == 49) &&
                        edge.target != 48) =
                true := by
  decide +kernel

theorem isGrammar : ParserGrammar.ofData "Doubling" data = .ok grammar := by
  have isOk := checks.1
  unfold grammar
  cases isRead : ParserGrammar.ofData "Doubling" data with
  | error cause => simp [isRead, Except.isOk, Except.toBool] at isOk
  | ok grammar => rfl

theorem shaped : grammar.network.CompilerShaped :=
  Network.compilerShaped_of_checkShape checks.2.1

theorem leadsOn : grammar.network.LeadsOn :=
  Network.leadsOn_of_checkLeadsOn checks.2.2.1

theorem nonLooping : grammar.network.NonLooping := by
  have climbs : grammar.network.Climbs rank :=
    Network.climbs_of_checkClimbing rank checks.2.2.2.2.1
  exact climbs.acyclic.nonLooping shaped.toRuleShaped

/-- The states of the rules. -/
theorem layout :
    (∀ rule < 15,
        (grammar.network.state (3 * rule)).edges =
            [.call (3 * (rule + 1)) (rule + 1) 0 (3 * rule + 1)] ∧
          (grammar.network.state (3 * rule + 1)).edges =
              [.call (3 * (rule + 1)) (rule + 1) 0 (3 * rule + 2)]) ∧
      (∀ rule < 16,
        (grammar.network.state (3 * rule)).kind ≠ .ruleStop ∧
          (grammar.network.state (3 * rule + 1)).kind ≠ .ruleStop ∧
            (grammar.network.state (3 * rule + 2)).kind = .ruleStop) ∧
        (grammar.network.state 45).edges = [.epsilon 46 none] ∧
          (grammar.network.state 46).edges = [.epsilon 47 none] := by
  decide +kernel

/-- The states of the start rule. -/
theorem layout_start :
    (grammar.network.state 48).edges = [.call 0 0 0 49] ∧
      (grammar.network.state 49).edges = [.atom 50 endOfInput] ∧
        (grammar.network.state 50).edges = [.epsilon 51 none] ∧
          (∀ number < 51, 48 ≤ number → (grammar.network.state number).kind ≠ .ruleStop) ∧
            grammar.network.startOf 16 = 48 ∧ grammar.network.stopOf 16 = 51 ∧
              16 < grammar.network.ruleCount ∧ idleLimit grammar.network = 100000 := by
  decide +kernel

/-- The parser at the beginning of the start rule. -/
theorem begins :
    parser.grammar.ruleNames.findIdx? (· == "s") = some 16 ∧
      (start.begun grammar.network 16).state = 48 ∧
        parser.tokens.visible.map Token.type = [endOfInput] := by
  decide +kernel

/-- The number of steps through a rule, so many rules before the last one. -/
def cost : Nat → Nat
  | 0 => 2
  | depth + 1 => 2 * cost depth + 4

/-- A walk goes through a rule without a token. -/
theorem crosses
    {depth rule : Nat}
    (isRule : rule + depth = 15) :
    FreeWalk grammar.network (cost depth) ⟨3 * rule, []⟩ ⟨3 * rule + 2, []⟩ := by
  -- By induction on the rules behind it: the rule calls the next one twice.
  induction depth generalizing rule with
  | zero =>
      obtain rfl : rule = 15 := by omega
      obtain ⟨-, inside, first, second⟩ := layout
      have begins : FreeStep grammar.network ⟨45, []⟩ ⟨46, []⟩ :=
        @FreeStep.edge _ 45 [] (.epsilon 46 none) (inside 15 (by decide)).1 (by simp [first]) rfl
      have ends : FreeStep grammar.network ⟨46, []⟩ ⟨47, []⟩ :=
        @FreeStep.edge _ 46 [] (.epsilon 47 none) (inside 15 (by decide)).2.1 (by simp [second]) rfl
      exact .step begins (.single ends)
  | succ depth inductionHypothesis =>
      obtain ⟨calls, kinds, -⟩ := layout
      obtain ⟨first, second⟩ := calls rule (by omega)
      obtain ⟨inside, insideNext, -⟩ := kinds rule (by omega)
      obtain ⟨-, -, stopped⟩ := kinds (rule + 1) (by omega)
      have through :
          ∀ follow,
            FreeWalk grammar.network (cost depth) ⟨3 * (rule + 1), [follow]⟩
              ⟨3 * (rule + 1) + 2, [follow]⟩ := fun follow =>
        (inductionHypothesis (by omega : rule + 1 + depth = 15)).above [follow]
      have callsFirst :
          FreeStep grammar.network ⟨3 * rule, []⟩ ⟨3 * (rule + 1), [3 * rule + 1]⟩ :=
        .call inside (by rw [first]; exact List.mem_singleton_self _)
      have callsSecond :
          FreeStep grammar.network ⟨3 * rule + 1, []⟩ ⟨3 * (rule + 1), [3 * rule + 2]⟩ :=
        .call insideNext (by rw [second]; exact List.mem_singleton_self _)
      have once := (FreeWalk.step callsFirst (through _)).snoc (.leave stopped)
      have again := (FreeWalk.step callsSecond (through _)).snoc (.leave stopped)
      have length : cost (depth + 1) = cost depth + 1 + 1 + (cost depth + 1 + 1) := by
        rw [cost]
        omega
      rw [length]
      exact once.append again

/-- The walk of the start rule is given up. -/
theorem outcome_start :
    (outcome (parseRule grammar 16) start).1 = .error (.fault .noProgress) := by
  obtain ⟨coherent, -⟩ := coherent_of_ofData isGrammar
  obtain ⟨calls, -, -, inside, -, -, inRules, isLimit⟩ := layout_start
  have call : FreeStep grammar.network ⟨48, []⟩ ⟨0, [49]⟩ :=
    .call (inside 48 (by decide) (by decide)) (by rw [calls]; exact List.mem_singleton_self _)
  have through := (crosses (by omega : 0 + 15 = 15)).above [49]
  obtain ⟨place, walk⟩ :=
    (FreeWalk.step call through).take (show 100000 ≤ cost 15 + 1 by decide)
  have isPlace : (start.begun grammar.network 16).place [.first 16] = ⟨48, []⟩ := by
    simp [Run.place, begins.2.1, Invocation.first]
  have few :
      (start.begun grammar.network 16).idleSteps + 100000 ≤ idleLimit grammar.network := by
    rw [isLimit, start, Run.idleSteps_begun]
  obtain ⟨run, invocations, unfinished, counted, -⟩ :=
    Unfinished.begun.goesOn_of_freeWalk shaped coherent
      (Network.unbranched_of_isUnbranched checks.2.2.2.2.2.1) inRules (isPlace ▸ walk) few
  refine unfinished.gives_up ?_
  rw [counted, Run.idleSteps_begun, isLimit]

/-- The start rule is the last one. -/
theorem invoke_start : parser.invoke "s" = parser.invokeNumber 16 := by
  rw [invoke, begins.1]

/-- Before the walk of the start rule is given up, it has come to the limit step by step. -/
theorem comes_to_limit :
    16 < grammar.network.ruleCount ∧
      ∃ run invocations first before,
        Unfinished grammar start 16 run invocations ∧
          run.idleSteps = idleLimit grammar.network ∧
            Unfinished grammar start 16 first before ∧ first.idleSteps = 0 ∧
              FreeWalk grammar.network run.idleSteps (first.place before)
                  (run.place invocations) ∧
                run.idleSteps <
                  grammar.network.innerBound grammar.network.ruleCount * before.length := by
  have inRules := layout_start.2.2.2.2.2.2.1
  obtain ⟨isIff, counted⟩ :=
    noProgress_iff_of_nonLooping isGrammar shaped leadsOn nonLooping (ListedTokens.ofList []) []
      inRules
  obtain ⟨run, invocations, unfinished, isIdle⟩ :=
    isIff.mp (@invokeNumber_of_fault _ _ parser 16 .noProgress outcome_start)
  obtain ⟨first, before, isFirst, fresh, walk, bounded⟩ := counted run invocations unfinished
  exact ⟨inRules, run, invocations, first, before, unfinished, isIdle, isFirst, fresh, walk,
    bounded⟩

/--
The network has no loop, and there is but one way through the start rule. Its walk is given up all
the same: between its beginning and the end of the input there are more steps than the limit.
-/
theorem gives_up :
    ParserGrammar.ofData "Doubling" data = .ok grammar ∧ grammar.network.CompilerShaped ∧
      grammar.network.LeadsOn ∧ grammar.network.NonLooping ∧
        (parser.invoke "s").1 = .error (.fault .noProgress) := by
  refine ⟨isGrammar, shaped, leadsOn, nonLooping, ?_⟩
  rw [invoke_start]
  exact @invokeNumber_of_fault _ _ parser 16 .noProgress outcome_start

/-- The end of the input is asked for in one place only, and no rule calls the start rule. -/
theorem endsOnce :
    ∀ number,
      (∀ edge ∈ (grammar.network.state number).edges,
          edge.consumes endOfInput 0 grammar.network.maxTokenType = true → number = 49) ∧
        ∀ target precedence follow,
          Edge.call target 16 precedence follow ∉ (grammar.network.state number).edges := by
  obtain ⟨-, -, -, -, isStart, -⟩ := layout_start
  intro number
  rcases Network.forall_state checks.2.2.2.2.2.2 number with holds | isBare
  · simp only [List.all_eq_true, Bool.and_eq_true, Bool.or_eq_true, Bool.not_eq_true',
      beq_iff_eq, bne_iff_ne] at holds
    refine ⟨fun edge present consumes => (holds edge present).1.resolve_left (by simp [consumes]),
      fun target precedence follow present => (holds _ present).2 ?_⟩
    rw [← isStart]
    exact shaped.callTarget present
  · simp [isBare, Network.State.bare]

/--
The only walk of the start rule reads the end of the input, and nothing else is to be read. Still
there is no tree: the parser takes the walk for one that makes no progress.
-/
theorem sentence_refused :
    ParserGrammar.ofData "Doubling" data = .ok grammar ∧ grammar.network.CompilerShaped ∧
      grammar.network.LeadsOn ∧ grammar.network.NonLooping ∧ grammar.network.Plain ∧
        ((grammar.network.state 49).edges = [.atom 50 endOfInput] ∧
          (grammar.network.state 50).edges = [.epsilon 51 none] ∧
            grammar.network.startOf 16 = 48 ∧ grammar.network.stopOf 16 = 51 ∧
              ∀ number,
                (∀ edge ∈ (grammar.network.state number).edges,
                    edge.consumes endOfInput 0 grammar.network.maxTokenType = true →
                      number = 49) ∧
                  ∀ target precedence follow,
                    Edge.call target 16 precedence follow ∉
                      (grammar.network.state number).edges) ∧
          (parser.tokens.ErrorFree ∧ parser.tokens.visible.map Token.type = [endOfInput]) ∧
            grammar.network.Reads ⟨48, []⟩ [endOfInput] ⟨51, []⟩ ∧
              ∀ tree, (parser.invoke "s").1 ≠ .ok tree := by
  obtain ⟨calls, asksEnd, leaves, inside, isStart, isStop, -⟩ := layout_start
  obtain ⟨-, -, visible⟩ := begins
  refine ⟨isGrammar, shaped, leadsOn, nonLooping, Network.plain_of_checkPlain checks.2.2.2.1,
    ⟨asksEnd, leaves, isStart, isStop, endsOnce⟩, ⟨TokenStream.errorFree_listed _, visible⟩, ?_, ?_⟩
  · have call : FreeStep grammar.network ⟨48, []⟩ ⟨0, [49]⟩ :=
      .call (inside 48 (by decide) (by decide)) (by rw [calls]; exact List.mem_singleton_self _)
    have through := (FreeWalk.step call ((crosses (by omega : 0 + 15 = 15)).above [49])).snoc
      (.leave (layout.2.1 0 (by decide)).2.2)
    have token : Network.TokenStep grammar.network endOfInput ⟨49, []⟩ ⟨50, []⟩ :=
      @Network.TokenStep.edge _ _ 49 [] (.atom 50 endOfInput) (inside 49 (by decide) (by decide))
        (by simp [asksEnd]) rfl
    have free : FreeStep grammar.network ⟨50, []⟩ ⟨51, []⟩ :=
      @FreeStep.edge _ 50 [] (.epsilon 51 none) (inside 50 (by decide) (by decide)) (by simp [leaves])
        rfl
    exact through.reads (.token token (.free free .stay))
  · intro tree isTree
    rw [invoke_start, @invokeNumber_of_fault _ _ parser 16 .noProgress outcome_start] at isTree
    cases isTree

end Doubling

end Parser

end GrammarService
