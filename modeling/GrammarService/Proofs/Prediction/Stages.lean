import GrammarService.Prediction.Predict
import GrammarService.Proofs.Token.Streams

namespace GrammarService

/-!
# The course of a prediction

A prediction goes from stage to stage, one token at a time, until it settles. What the first stage
and every computed successor keep is kept by a whole prediction. The tokens are only looked at:
more of them may have been taken afterwards.
-/

namespace Prediction

/-- Where a remembered prediction stands: in a state of the automaton, before a token. -/
structure Stage (σ : Type) where
  number : Nat
  index : Nat
  memory : Memory
  tokens : TokenStream σ

namespace Stage

variable {σ : Type} [TokenSource σ]

/-- The type of the token that a prediction looks at next. -/
def symbol (stage : Stage σ) : Int :=
  (stage.tokens.token stage.index).type

/-- The stage in which a prediction begins. -/
def first
    (setting : Setting)
    (memory : Memory)
    (tokens : TokenStream σ)
    (start : Nat) :
    Stage σ where
  number := (startState setting memory).1
  index := start
  memory := (startState setting memory).2
  tokens := tokens

/-- The stage in another state of the automaton, before the next token unless there is none. -/
def advance
    (stage : Stage σ)
    (number : Nat)
    (memory : Memory) :
    Stage σ :=
  let (index, tokens) :=
    if stage.symbol == endOfInput then
      (stage.index, stage.tokens)
    else
      stage.tokens.nextVisible (stage.index + 1)
  ⟨number, index, memory, tokens⟩

/-- What one token does to a prediction: it settles it, or leads to another stage. -/
def step
    (setting : Setting)
    (start : Nat)
    (stage : Stage σ) :
    (Outcome × Memory × TokenStream σ) ⊕ Stage σ :=
  match successor setting stage.memory stage.number stage.symbol with
  | (.dead, memory) =>
      match finishedAlternative? setting (memory.automaton.configurationsOf stage.number)
          memory.store with
      | some alternative => .inl (.predicted alternative, memory, stage.tokens)
      | none => .inl (.noViableAlternative stage.index, memory, stage.tokens)
  | (.state next, memory) =>
      match memory.automaton.verdictOf? next with
      | some verdict => .inl (outcomeOf setting.precedence start verdict, memory, stage.tokens)
      | none => .inr (stage.advance next memory)

/-- The stages that a prediction goes through. -/
inductive Course
    (setting : Setting)
    (memory : Memory)
    (tokens : TokenStream σ)
    (start : Nat) :
    Stage σ → Prop where
  | first :
      Course setting memory tokens start (Stage.first setting memory tokens start)
  | next
      {stage next : Stage σ}
      (course : Course setting memory tokens start stage)
      (leads : stage.step setting start = .inr next) :
      Course setting memory tokens start next

/-- Following the automaton is taking one step after the other. -/
theorem followAutomaton_succ
    (setting : Setting)
    (start limit : Nat)
    (stage : Stage σ) :
    followAutomaton setting start (limit + 1) stage.number stage.index stage.memory
        stage.tokens =
      match stage.step setting start with
      | .inl settled => settled
      | .inr next =>
          followAutomaton setting start limit next.number next.index next.memory
            next.tokens := by
  simp only [followAutomaton, step, advance, symbol]
  cases successor setting stage.memory stage.number
    (stage.tokens.token stage.index).type with
  | mk leadsTo after =>
      cases leadsTo with
      | dead =>
          dsimp only
          cases finishedAlternative? setting
            (after.automaton.configurationsOf stage.number) after.store <;> rfl
      | state next =>
          dsimp only
          cases after.automaton.verdictOf? next <;> rfl

/-- A prediction follows the automaton from its first stage. -/
theorem predictRemembered_eq
    (setting : Setting)
    (memory : Memory)
    (tokens : TokenStream σ)
    (start : Nat) :
    predictRemembered setting memory tokens start =
      let stage := Stage.first setting memory tokens start
      followAutomaton setting start (lookaheadBound tokens) stage.number stage.index
        stage.memory stage.tokens :=
  rfl

end Stage

section Induction

variable
  {setting : Setting}
  (property : Memory → Prop)
  (starting :
    ∀ memory, property memory →
      memory.automaton.start? setting.precedence = none →
      property (startState setting memory).2)
  (computing :
    ∀ memory number symbol, property memory →
      memory.automaton.successor? number symbol = none →
      property (computeSuccessor setting memory number symbol).2)
  {σ : Type}
  [TokenSource σ]

omit [TokenSource σ] in
include starting in
/-- What the first state of a prediction keeps, the beginning of a prediction keeps. -/
theorem Stage.first_induction
    {memory : Memory}
    (holds : property memory)
    (tokens : TokenStream σ)
    (start : Nat) :
    property (Stage.first setting memory tokens start).memory := by
  change property (startState setting memory).2
  cases recorded : memory.automaton.start? setting.precedence with
  | some number =>
      simpa [startState, recorded] using holds
  | none =>
      exact starting memory holds recorded

include computing in
/-- What every computed successor keeps, a step keeps. -/
theorem Stage.step_induction
    {stage : Stage σ}
    (holds : property stage.memory)
    (start : Nat) :
    match stage.step setting start with
    | .inl (_, memory, _) => property memory
    | .inr next => property next.memory := by
  have afterStep :
      property (successor setting stage.memory stage.number stage.symbol).2 := by
    unfold successor
    split
    · exact holds
    · exact computing stage.memory stage.number _ holds (by assumption)
  unfold Stage.step
  cases stepped : successor setting stage.memory stage.number stage.symbol with
  | mk leadsTo after =>
      rw [stepped] at afterStep
      cases leadsTo with
      | dead =>
          dsimp only
          cases finishedAlternative? setting (after.automaton.configurationsOf stage.number)
            after.store <;> exact afterStep
      | state next =>
          dsimp only
          cases after.automaton.verdictOf? next <;> exact afterStep

include starting computing

/-- What the first state and every computed successor keep holds at every stage. -/
theorem Stage.Course.induction
    {memory : Memory}
    (holds : property memory)
    {tokens : TokenStream σ}
    {start : Nat}
    {stage : Stage σ}
    (course : Stage.Course setting memory tokens start stage) :
    property stage.memory := by
  induction course with
  | first => exact Stage.first_induction property starting holds tokens start
  | next _ leads inductionHypothesis =>
      have kept := Stage.step_induction property computing inductionHypothesis start
      rw [leads] at kept
      exact kept

/--
What the first state of a prediction and every computed successor keep, a prediction along the
automaton keeps.
-/
theorem predictRemembered_induction
    {memory : Memory}
    (holds : property memory)
    (tokens : TokenStream σ)
    (start : Nat) :
    property (predictRemembered setting memory tokens start).2.1 := by
  have followed :
      ∀ (limit : Nat) (stage : Stage σ),
        property stage.memory →
        property
          (followAutomaton setting start limit stage.number stage.index stage.memory
            stage.tokens).2.1 := by
    intro limit
    induction limit with
    | zero =>
        intro stage holds
        exact holds
    | succ limit inductionHypothesis =>
        intro stage holds
        rw [Stage.followAutomaton_succ]
        have kept := Stage.step_induction property computing holds start
        cases stepped : stage.step setting start with
        | inl settled =>
            rw [stepped] at kept
            exact kept
        | inr next =>
            rw [stepped] at kept
            exact inductionHypothesis next kept
  exact followed _ (Stage.first setting memory tokens start)
    (Stage.first_induction property starting holds tokens start)

end Induction

namespace Stage

variable {σ : Type} [TokenSource σ]

/-- Going on to the next token only takes tokens. -/
theorem continues_advance
    (stage : Stage σ)
    (number : Nat)
    (memory : Memory) :
    stage.tokens.Continues (stage.advance number memory).tokens := by
  simp only [advance]
  split
  · exact .refl stage.tokens
  · exact .nextVisible stage.tokens _

/-- A step of a prediction only takes tokens. -/
theorem continues_step
    (setting : Setting)
    (start : Nat)
    (stage : Stage σ) :
    match stage.step setting start with
    | .inl (_, _, tokens) => stage.tokens.Continues tokens
    | .inr next => stage.tokens.Continues next.tokens := by
  unfold step
  cases successor setting stage.memory stage.number stage.symbol with
  | mk leadsTo after =>
      cases leadsTo with
      | dead =>
          dsimp only
          cases finishedAlternative? setting (after.automaton.configurationsOf stage.number)
            after.store <;> exact .refl _
      | state next =>
          dsimp only
          cases after.automaton.verdictOf? next with
          | some verdict => exact .refl _
          | none => exact continues_advance stage next after

end Stage

/-- Following an automaton only takes tokens. -/
theorem continues_followAutomaton
    {σ : Type}
    [TokenSource σ]
    (setting : Setting)
    (start limit : Nat)
    (stage : Stage σ) :
    stage.tokens.Continues
      (followAutomaton setting start limit stage.number stage.index stage.memory
        stage.tokens).2.2 := by
  induction limit generalizing stage with
  | zero => exact .refl _
  | succ limit inductionHypothesis =>
      rw [Stage.followAutomaton_succ]
      have continues := Stage.continues_step setting start stage
      cases stepped : stage.step setting start with
      | inl settled =>
          rw [stepped] at continues
          exact continues
      | inr next =>
          rw [stepped] at continues
          exact continues.trans (inductionHypothesis next)

/-- A remembered prediction only takes tokens. -/
theorem continues_predictRemembered
    {σ : Type}
    [TokenSource σ]
    (setting : Setting)
    (memory : Memory)
    (tokens : TokenStream σ)
    (start : Nat) :
    tokens.Continues (predictRemembered setting memory tokens start).2.2 :=
  continues_followAutomaton setting start _ (Stage.first setting memory tokens start)

/-- Where a prediction in context stands: with a set of configurations, before a token. -/
structure ContextStage (σ : Type) where
  set : ConfigurationSet
  index : Nat
  store : StackStore
  tokens : TokenStream σ

namespace ContextStage

variable {σ : Type} [TokenSource σ]

/-- The type of the token that a prediction looks at next. -/
def symbol (stage : ContextStage σ) : Int :=
  (stage.tokens.token stage.index).type

/-- The stage in which a prediction in context begins. -/
def first
    (setting : Setting)
    (decisionState : Nat)
    (returnStates : List Nat)
    (store : StackStore)
    (tokens : TokenStream σ)
    (start : Nat) :
    ContextStage σ :=
  let (stack, store) := (StackStore.ofReturnStates returnStates).run store
  let (set, store) := startSet setting decisionState stack true store
  ⟨set, start, store, tokens⟩

/-- The stage with other configurations, before the next token unless there is none. -/
def advance
    (stage : ContextStage σ)
    (set : ConfigurationSet)
    (store : StackStore) :
    ContextStage σ :=
  let (index, tokens) :=
    if stage.symbol == endOfInput then
      (stage.index, stage.tokens)
    else
      stage.tokens.nextVisible (stage.index + 1)
  ⟨set, index, store, tokens⟩

/-- What one token does to a prediction in context: it settles it, or leads to another stage. -/
def step
    (setting : Setting)
    (stage : ContextStage σ) :
    (Outcome × StackStore × TokenStream σ) ⊕ ContextStage σ :=
  match reachSet? setting stage.set stage.symbol true stage.store with
  | (none, store) =>
      match finishedAlternative? setting stage.set store with
      | some alternative => .inl (.predicted alternative, store, stage.tokens)
      | none => .inl (.noViableAlternative stage.index, store, stage.tokens)
  | (some reached, store) =>
      match reached.uniqueAlternative?.or (commonLowest? reached.alternativesByPlace) with
      | some alternative => .inl (.predicted alternative, store, stage.tokens)
      | none => .inr (stage.advance reached store)

/-- Simulating tokens is taking one step after the other. -/
theorem simulateTokens_succ
    (setting : Setting)
    (limit : Nat)
    (stage : ContextStage σ) :
    simulateTokens setting (limit + 1) stage.set stage.index stage.store stage.tokens =
      match stage.step setting with
      | .inl settled => settled
      | .inr next =>
          simulateTokens setting limit next.set next.index next.store next.tokens := by
  simp only [simulateTokens, step, advance, symbol]
  cases reachSet? setting stage.set (stage.tokens.token stage.index).type true stage.store with
  | mk reached after =>
      cases reached with
      | none =>
          dsimp only
          cases finishedAlternative? setting stage.set after <;> rfl
      | some reached =>
          dsimp only
          cases reached.uniqueAlternative?.or
            (commonLowest? reached.alternativesByPlace) <;> rfl

/-- A prediction in context simulates tokens from its first stage on. -/
theorem predictInContext_eq
    (setting : Setting)
    (decisionState : Nat)
    (returnStates : List Nat)
    (store : StackStore)
    (tokens : TokenStream σ)
    (start : Nat) :
    predictInContext setting decisionState returnStates store tokens start =
      let stage := ContextStage.first setting decisionState returnStates store tokens start
      simulateTokens setting (lookaheadBound tokens) stage.set stage.index stage.store
        stage.tokens :=
  rfl

/-- Going on to the next token only takes tokens. -/
theorem continues_advance
    (stage : ContextStage σ)
    (set : ConfigurationSet)
    (store : StackStore) :
    stage.tokens.Continues (stage.advance set store).tokens := by
  simp only [advance]
  split
  · exact .refl stage.tokens
  · exact .nextVisible stage.tokens _

/-- A step of a prediction in context only takes tokens. -/
theorem continues_step
    (setting : Setting)
    (stage : ContextStage σ) :
    match stage.step setting with
    | .inl (_, _, tokens) => stage.tokens.Continues tokens
    | .inr next => stage.tokens.Continues next.tokens := by
  unfold step
  cases reachSet? setting stage.set stage.symbol true stage.store with
  | mk reached after =>
      cases reached with
      | none =>
          dsimp only
          cases finishedAlternative? setting stage.set after <;> exact .refl _
      | some reached =>
          dsimp only
          cases reached.uniqueAlternative?.or
            (commonLowest? reached.alternativesByPlace) with
          | some alternative => exact .refl _
          | none => exact continues_advance stage reached after

end ContextStage

/-- Simulating tokens only takes tokens. -/
theorem continues_simulateTokens
    {σ : Type}
    [TokenSource σ]
    (setting : Setting)
    (limit : Nat)
    (stage : ContextStage σ) :
    stage.tokens.Continues
      (simulateTokens setting limit stage.set stage.index stage.store stage.tokens).2.2 := by
  induction limit generalizing stage with
  | zero => exact .refl _
  | succ limit inductionHypothesis =>
      rw [ContextStage.simulateTokens_succ]
      have continues := ContextStage.continues_step setting stage
      cases stepped : stage.step setting with
      | inl settled =>
          rw [stepped] at continues
          exact continues
      | inr next =>
          rw [stepped] at continues
          exact continues.trans (inductionHypothesis next)

/-- A prediction in context only takes tokens. -/
theorem continues_predictInContext
    {σ : Type}
    [TokenSource σ]
    (setting : Setting)
    (decisionState : Nat)
    (returnStates : List Nat)
    (store : StackStore)
    (tokens : TokenStream σ)
    (start : Nat) :
    tokens.Continues
      (predictInContext setting decisionState returnStates store tokens start).2.2 :=
  continues_simulateTokens setting _
    (ContextStage.first setting decisionState returnStates store tokens start)

end Prediction

end GrammarService
