import GrammarService.Proofs.Parser.Moves
import GrammarService.Proofs.Prediction.ConfigurationSets

namespace GrammarService

/-!
# Which tokens cross an edge

A prediction and a walk ask the same edge in different ways whether it consumes a token. They take
other bounds for the vocabulary, and a walk lets nothing but a single listed symbol consume the end
of the input. The two agree on every edge and every token of the vocabulary, and on the end of the
input except where a range or a set lists it: there a prediction crosses the edge, and a walk that
follows the prediction fails with a syntax error.
-/

namespace Edge

/-- Whether the end of the input is among the symbols of a range or a set. -/
def listsEnd : Edge → Bool
  | .range _ first last => decide (first ≤ endOfInput ∧ endOfInput ≤ last)
  | .set _ symbols => symbols.contains endOfInput
  | _ => false

/-- A token of the vocabulary is consumed in predictions exactly where it is in walks. -/
theorem consumes_eq_admits_of_token
    {edge : Edge}
    {type highest : Int}
    (bounded : highest ≤ maxSetTokenType)
    (atLeast : minTokenType ≤ type)
    (atMost : type ≤ highest) :
    edge.consumes type 0 highest = edge.admits type := by
  have isPositive : 0 ≤ type := by
    simp only [minTokenType] at atLeast
    omega
  cases edge <;> simp [consumes, admits, atLeast, atMost, isPositive, atMost.trans bounded]

/--
The end of the input is consumed in predictions exactly where it is in walks, but for ranges and
sets that list it.
-/
theorem consumes_eq_admits_endOfInput_iff
    {edge : Edge}
    (highest : Int) :
    edge.consumes endOfInput 0 highest = edge.admits endOfInput ↔ edge.listsEnd = false := by
  cases edge <;> simp [consumes, admits, listsEnd, endOfInput, minTokenType]

end Edge

namespace Prediction

/-- What a token leads a single configuration to, before free edges are followed. -/
def movesOf
    (network : Network)
    (symbol : Int)
    (configuration : Configuration) :
    List Configuration :=
  let state := network.state configuration.state
  if state.kind = .ruleStop then
    []
  else
    (state.edges.filter fun edge => edge.consumes symbol 0 network.maxTokenType).map
      fun edge => { configuration with state := edge.target }

/-- A prediction lets a configuration cross an edge over a token. -/
def Crosses
    (network : Network)
    (symbol : Int)
    (configuration : Configuration)
    (edge : Edge) :
    Prop :=
  { configuration with state := edge.target } ∈ movesOf network symbol configuration

/-- The only edge of a state is crossed where it consumes the token, unless a rule ends there. -/
theorem crosses_iff_of_only
    {network : Network}
    {symbol : Int}
    {configuration : Configuration}
    {edge : Edge}
    (only : (network.state configuration.state).edges = [edge]) :
    Crosses network symbol configuration edge ↔
      (network.state configuration.state).kind ≠ .ruleStop ∧
        edge.consumes symbol 0 network.maxTokenType = true := by
  unfold Crosses movesOf
  by_cases stopped : (network.state configuration.state).kind = .ruleStop
  · simp [stopped]
  · cases consumes : edge.consumes symbol 0 network.maxTokenType <;>
      simp [stopped, only, consumes]

end Prediction

namespace Parser

section Walks

variable {σ : Type} {α β : Type} {run after : Run σ} {grammar : ParserGrammar}

/-- A step that is taken from one state of the walk fails with a syntax error. -/
def Rejects
    (step : Walk σ α)
    (run : Run σ) :
    Prop :=
  ∃ error after, outcome step run = (.error (.syntaxError error), after)

/-- A composed step fails with a syntax error where a later part does. -/
theorem Ends.rejects_bind
    {step : Walk σ α}
    {next : α → Walk σ β}
    {value : α}
    (ends : Ends step run value after)
    (rejects : Rejects (next value) after) :
    Rejects (step >>= next) run := by
  obtain ⟨error, last, isOutcome⟩ := rejects
  exact ⟨error, last, by rw [outcome_bind, ends]; exact isOutcome⟩

/-- A composed step fails with a syntax error where its first part does. -/
theorem Rejects.bind
    {step : Walk σ α}
    (rejects : Rejects step run)
    (next : α → Walk σ β) :
    Rejects (step >>= next) run := by
  obtain ⟨error, last, isOutcome⟩ := rejects
  exact ⟨error, last, by rw [outcome_bind, isOutcome]⟩

/-- A step that fails does not succeed. -/
theorem Rejects.not_ends
    {step : Walk σ α}
    (rejects : Rejects step run)
    {value : α} :
    ¬ Ends step run value after := by
  obtain ⟨error, last, isOutcome⟩ := rejects
  simp [Ends, isOutcome]

theorem rejects_rejectMismatch (run : Run σ) :
    Rejects (rejectMismatch grammar : Walk σ α) run :=
  ⟨_, _, rfl⟩

theorem rejects_rejectExtraneous (run : Run σ) :
    Rejects (rejectExtraneous grammar : Walk σ α) run :=
  ⟨_, _, rfl⟩

theorem rejects_rejectMissing (run : Run σ) :
    Rejects (rejectMissing grammar : Walk σ α) run :=
  ⟨_, _, rfl⟩

variable [TokenSource σ]

/-- A token that cannot leave the current state is a syntax error. -/
theorem rejects_rejectCurrent (run : Run σ) :
    Rejects (rejectCurrent grammar : Walk σ α) run := by
  refine Ends.rejects_bind (outcome_get run) ?_
  dsimp only
  split
  · have peeks : ∃ type between, Ends peekType run type between := ⟨_, _, rfl⟩
    obtain ⟨type, between, peeks⟩ := peeks
    refine peeks.rejects_bind (Ends.rejects_bind (outcome_get between) ?_)
    split
    · exact (rejects_rejectExtraneous between).bind _
    · refine Ends.rejects_bind (ends_pure_iff.mpr ⟨rfl, rfl⟩)
        (Ends.rejects_bind (outcome_get between) ?_)
      split
      · split
        · exact rejects_rejectMissing between
        · exact rejects_rejectMismatch between
      · exact rejects_rejectMismatch between
  · refine Ends.rejects_bind (outcome_get run) ?_
    split
    · split
      · exact rejects_rejectMissing run
      · exact rejects_rejectMismatch run
    · exact rejects_rejectMismatch run

/-- Only tokens that a grammar can define are consumed whatever they are. -/
theorem consumeAny_of_current (run : Run σ) :
    (minTokenType ≤ run.current.type → Ends (consumeAny grammar) run () run.consumed) ∧
      (run.current.type < minTokenType → Rejects (consumeAny grammar) run) := by
  constructor
  · intro atLeast
    refine ends_bind_iff.mpr ⟨run, run, outcome_get run, ?_⟩
    rw [if_neg (by omega)]
    exact outcome_consume run
  · intro below
    refine Ends.rejects_bind (outcome_get run) ?_
    rw [if_pos below]
    exact rejects_rejectCurrent run

/-- A consuming edge is crossed by consuming a token that it admits; any other is an error. -/
theorem crossEdge_of_consuming
    {state : Network.State}
    {edge : Edge}
    (consuming : edge.isEpsilon = false) :
    if edge.admits run.current.type = true then
      Ends (crossEdge grammar state edge) run () run.consumed
    else
      Rejects (crossEdge grammar state edge) run := by
  have listed :
      let step : Walk σ Unit := do
        if edge.consumes (← get).current.type minTokenType maxSetTokenType then
          consumeAny grammar
        else
          rejectCurrent grammar
      if (edge.consumes run.current.type minTokenType maxSetTokenType &&
          decide (minTokenType ≤ run.current.type)) = true then
        Ends step run () run.consumed
      else
        Rejects step run := by
    cases consumes : edge.consumes run.current.type minTokenType maxSetTokenType with
    | false =>
        refine Ends.rejects_bind (outcome_get run) ?_
        rw [consumes]
        exact rejects_rejectCurrent run
    | true =>
        by_cases atLeast : minTokenType ≤ run.current.type
        · rw [if_pos (by simpa using atLeast)]
          refine ends_bind_iff.mpr ⟨run, run, outcome_get run, ?_⟩
          rw [consumes]
          exact (consumeAny_of_current run).1 atLeast
        · rw [if_neg (by simpa using atLeast)]
          refine Ends.rejects_bind (outcome_get run) ?_
          rw [consumes]
          exact (consumeAny_of_current run).2 (by omega)
  cases edge with
  | atom target label =>
      by_cases same : run.current.type = label
      · rw [if_pos (by simp [Edge.admits, same])]
        refine ends_bind_iff.mpr ⟨run, run, outcome_get run, ?_⟩
        rw [if_pos same]
        exact outcome_consume run
      · rw [if_neg (by simpa [Edge.admits] using Ne.symm same)]
        refine Ends.rejects_bind (outcome_get run) ?_
        rw [if_neg same]
        exact rejects_rejectCurrent run
  | wildcard target =>
      by_cases atLeast : minTokenType ≤ run.current.type
      · rw [if_pos (by simpa [Edge.admits] using atLeast)]
        exact (consumeAny_of_current run).1 atLeast
      · rw [if_neg (by simpa [Edge.admits] using atLeast)]
        exact (consumeAny_of_current run).2 (by omega)
  | range | set | notSet => exact listed
  | _ => cases consuming

/-- A walk leaves a state along its only edge, for which no prediction is needed. -/
theorem leaveState_of_only
    {edge : Edge}
    (only : (grammar.network.state run.state).edges = [edge]) :
    outcome (leaveState grammar) run =
      outcome
        (do
          crossEdge grammar (grammar.network.state run.state) edge
          modify fun run => { run with state := edge.target })
        run := by
  rw [leaveState, outcome_bind, outcome_get]
  simp only [only]
  rfl

/-- A walk consumes the current token to cross an edge of its state. -/
def Consumes
    (grammar : ParserGrammar)
    (run : Run σ)
    (edge : Edge) :
    Prop :=
  Ends (leaveState grammar) run () { run.consumed with state := edge.target }

/-- A walk consumes what the only edge of its state admits, and fails on any other token. -/
theorem consumes_or_rejects_of_only
    {edge : Edge}
    (only : (grammar.network.state run.state).edges = [edge])
    (consuming : edge.isEpsilon = false) :
    if edge.admits run.current.type = true then
      Consumes grammar run edge
    else
      Rejects (leaveState grammar) run := by
  have crosses :=
    @crossEdge_of_consuming σ run grammar _ (grammar.network.state run.state) edge consuming
  split at crosses
  · rename_i admitted
    rw [if_pos admitted]
    unfold Consumes Ends
    rw [leaveState_of_only only, outcome_bind, crosses]
    rfl
  · rename_i refused
    rw [if_neg refused]
    obtain ⟨error, after, isOutcome⟩ := crosses.bind _
    exact ⟨error, after, (leaveState_of_only only).trans isOutcome⟩

/--
A prediction and a walk disagree about the token that the only edge of a state consumes: the end of
the input is listed by a range or a set, or the state is the end of a rule, where a prediction
crosses no edge.
-/
def Disagrees
    (network : Network)
    (number : Nat)
    (edge : Edge)
    (type : Int) :
    Prop :=
  if (network.state number).kind = .ruleStop then
    edge.admits type = true
  else
    type = endOfInput ∧ edge.listsEnd = true

/--
At a state whose only edge consumes a token, a walk either consumes the current token or fails with
a syntax error; and it does what a prediction does with the same token in all cases but one. The
exception is the end of the input at a range or a set that lists it: a prediction crosses the edge
and the walk fails. (Walks do not visit the edges of a rule's end, which predictions do not cross.)
-/
theorem crosses_iff_consumes_unless
    {configuration : Configuration}
    {edge : Edge}
    (bounded : grammar.network.maxTokenType ≤ maxSetTokenType)
    (sameState : configuration.state = run.state)
    (only : (grammar.network.state run.state).edges = [edge])
    (consuming : edge.isEpsilon = false)
    (inVocabulary :
      run.current.type = endOfInput ∨
        minTokenType ≤ run.current.type ∧ run.current.type ≤ grammar.network.maxTokenType) :
    (Rejects (leaveState grammar) run ↔ ¬ Consumes grammar run edge) ∧
      ((Prediction.Crosses grammar.network run.current.type configuration edge ↔
          Consumes grammar run edge) ↔
        ¬ Disagrees grammar.network run.state edge run.current.type) := by
  have visits := consumes_or_rejects_of_only only consuming
  have consumes_iff : Consumes grammar run edge ↔ edge.admits run.current.type = true := by
    split at visits
    · simp_all
    · rename_i refused
      exact iff_of_false visits.not_ends refused
  have crosses_iff :=
    @Prediction.crosses_iff_of_only grammar.network run.current.type configuration edge
      (sameState ▸ only)
  refine ⟨⟨fun rejects => rejects.not_ends, fun refused => ?_⟩, ?_⟩
  · rw [if_neg (fun admitted => refused (consumes_iff.mpr admitted))] at visits
    exact visits
  · rw [crosses_iff, consumes_iff, sameState]
    unfold Disagrees
    by_cases stopped : (grammar.network.state run.state).kind = .ruleStop
    · simp [stopped]
    · rcases inVocabulary with atEnd | ⟨atLeast, atMost⟩
      · have agree_iff :=
          @Edge.consumes_eq_admits_endOfInput_iff edge grammar.network.maxTokenType
        simp only [stopped, atEnd, ne_eq, not_false_eq_true, true_and, ↓reduceIte,
          ← Bool.eq_iff_iff, agree_iff, Bool.not_eq_true]
      · have notEnd : run.current.type ≠ endOfInput := by
          simp only [endOfInput, minTokenType] at atLeast ⊢
          omega
        simp [stopped, notEnd, Edge.consumes_eq_admits_of_token bounded atLeast atMost]

end Walks

namespace OptionalLetter

/-- The data of a parser for the rule `s : 'b' 'b' | ('a' | EOF) ;`, whose set is left at state 5. -/
def data : RecognizerData where
  literalNames := [none, some "'a'", some "'b'"]
  symbolicNames := []
  ruleNames := ["s"]
  channelNames := []
  modeNames := []
  encodedNetwork :=
    [4, 1, 2, 7, 2, 0, 7, 0, 3, 0, 6, 1, 0, 1, 0, 1, 0, 8, 0, 0, 0, 1, 0, 0, 1, 1, 1, 1, 1,
      7,
      0, 2, 1, 0, 0, 0, 2, 3, 1, 0, 0, 0, 2, 5, 1, 0, 0, 0, 3, 4, 5, 2, 0, 0, 4, 6, 5, 2, 0, 0,
      5, 6, 7, 0, 0, 0, 6, 1, 1, 0, 0, 0,
      1, 2]

/-- The grammar itself. -/
def grammar : ParserGrammar :=
  (ParserGrammar.ofData "OptionalLetter" data).toOption.getD default

/-- The edge that consumes `'a'` or the end of the input. -/
def edge : Edge :=
  .set 6 ⟨[⟨-1, -1⟩, ⟨1, 1⟩]⟩

/-- A parser at the beginning of the given tokens. -/
def parser (tokens : List (Int × String × Int)) : Parser ListedTokens :=
  Parser.ofStream grammar (TokenStream.ofSource (ListedTokens.ofList tokens))

/-- A walk that has come to the set before the given tokens. -/
def atSet (tokens : List (Int × String × Int)) : Run ListedTokens :=
  { Run.start (parser tokens).tokens (parser tokens).cache with state := 5 }

/-- The only edge of state 5 is the one with the set. -/
theorem only_edge : (grammar.network.state 5).edges = [edge] := by
  decide +kernel

/-- Before `'a'` the prediction crosses the edge and the walk consumes the token. -/
theorem consumes_letter :
    ((Rejects (leaveState grammar) (atSet [(1, "a", 0)]) ↔
          ¬ Consumes grammar (atSet [(1, "a", 0)]) edge) ∧
        ((Prediction.Crosses grammar.network 1 (.start 5 2 StackId.empty) edge ↔
            Consumes grammar (atSet [(1, "a", 0)]) edge) ↔
          ¬ Disagrees grammar.network 5 edge 1)) ∧
      Prediction.Crosses grammar.network 1 (.start 5 2 StackId.empty) edge := by
  have isLetter : (atSet [(1, "a", 0)]).current.type = 1 := by decide +kernel
  have isMax : grammar.network.maxTokenType = 2 := by decide +kernel
  have inside : (grammar.network.state 5).kind ≠ .ruleStop := by decide +kernel
  have agrees :=
    @crosses_iff_consumes_unless _ (atSet [(1, "a", 0)]) grammar _
      (.start 5 2 StackId.empty) edge (by rw [isMax]; decide) rfl only_edge rfl
      (by rw [isLetter, isMax]; decide)
  rw [isLetter] at agrees
  exact ⟨agrees, (Prediction.crosses_iff_of_only only_edge).mpr ⟨inside, by rw [isMax]; rfl⟩⟩

set_option maxRecDepth 20000 in
/--
At the end of the input the prediction crosses the edge and chooses the alternative with the set;
the walk follows it there and fails.
-/
theorem end_crossed_and_refused :
    Prediction.Crosses grammar.network endOfInput (.start 5 2 StackId.empty) edge ∧
      ¬ Consumes grammar (atSet []) edge ∧
      ((parser []).invoke "s").1 =
        .error (.syntaxErrors [⟨1, 0, "missing \x7b<EOF>, 'a'\x7d at '<EOF>'"⟩]) := by
  have inside : (grammar.network.state 5).kind ≠ .ruleStop := by decide +kernel
  have isMax : grammar.network.maxTokenType = 2 := by decide +kernel
  have crosses : Prediction.Crosses grammar.network endOfInput (.start 5 2 StackId.empty) edge :=
    (Prediction.crosses_iff_of_only only_edge).mpr ⟨inside, by rw [isMax]; rfl⟩
  have visits := @consumes_or_rejects_of_only _ (atSet []) grammar _ edge only_edge rfl
  have isEnd : (atSet []).current.type = endOfInput := by decide +kernel
  rw [isEnd, if_neg (by decide)] at visits
  exact ⟨crosses, visits.not_ends, by cbv⟩

end OptionalLetter

end Parser

end GrammarService
