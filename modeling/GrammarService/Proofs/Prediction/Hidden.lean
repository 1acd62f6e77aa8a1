import GrammarService.Proofs.Prediction.Settling
import GrammarService.Proofs.Token.Sight

namespace GrammarService

/-!
# Predictions do not see hidden tokens

A prediction looks ahead from one visible token to the next. Over two streams that look the same it
goes through the same states, learns the same, and comes to the same, only that the tokens it stops
at have other positions.
-/

namespace Prediction

variable {σ τ : Type} [TokenSource σ] [TokenSource τ] {look : Token → Token}

/-- The same outcome over two streams, from where a prediction started in each of them. -/
inductive Outcome.Alike
    (look : Token → Token)
    (stream : TokenStream σ)
    (other : TokenStream τ)
    (start : Nat) :
    Outcome → Outcome → Prop
  | predicted (alternative : Nat) :
      Alike look stream other start (.predicted alternative) (.predicted alternative)
  | noViableAlternative
      {offending otherOffending : Nat}
      (le : start ≤ offending)
      (abreast : stream.Abreast look other offending otherOffending) :
      Alike look stream other start (.noViableAlternative offending)
        (.noViableAlternative otherOffending)
  | needsFullContext : Alike look stream other start .needsFullContext .needsFullContext

/-- Two predictions that started abreast look ahead to tokens that are abreast. -/
structure LookAbreast
    (look : Token → Token)
    (start otherStart : Nat)
    (stream : TokenStream σ)
    (other : TokenStream τ)
    (index otherIndex : Nat) :
    Prop where
  started : stream.Abreast look other start otherStart
  ahead : start ≤ index
  abreast : stream.Abreast look other index otherIndex

namespace LookAbreast

variable {start otherStart index otherIndex : Nat} {stream : TokenStream σ}
  {other : TokenStream τ}

/-- Two predictions start to look ahead at tokens that are abreast. -/
theorem ofStart (started : stream.Abreast look other start otherStart) :
    LookAbreast look start otherStart stream other start otherStart :=
  ⟨started, Nat.le_refl _, started⟩

/-- Two predictions can both look at the next token. -/
theorem next
    (shows : Token.Shows look)
    (looks : LookAbreast look start otherStart stream other index otherIndex)
    (notEnd : (stream.token index).isEnd = false) :
    LookAbreast look start otherStart (stream.nextVisible (index + 1)).2
      (other.nextVisible (otherIndex + 1)).2 (stream.nextVisible (index + 1)).1
      (other.nextVisible (otherIndex + 1)).1 where
  started := looks.started.continues (.nextVisible _ _) (.nextVisible _ _)
  ahead := by
    obtain ⟨count, stands, -⟩ := looks.abreast.stands
    have further :=
      (stands.continues (.nextVisible _ _)).position_le (stands.next notEnd) (Nat.le_succ count)
    exact Nat.le_trans looks.ahead further
  abreast := looks.abreast.next shows notEnd

end LookAbreast

/-- The outcome of a verdict does not depend on where the prediction started. -/
theorem alike_outcomeOf
    {start otherStart : Nat}
    {stream : TokenStream σ}
    {other : TokenStream τ}
    (started : stream.Abreast look other start otherStart)
    (precedence : Int)
    (verdict : Verdict) :
    Outcome.Alike look stream other start (outcomeOf precedence start verdict)
      (outcomeOf precedence otherStart verdict) := by
  unfold outcomeOf
  cases verdict.guards with
  | none =>
      dsimp only
      split
      · exact .needsFullContext
      · exact .predicted _
  | some guards =>
      dsimp only
      split
      · exact .predicted _
      · split
        · exact .needsFullContext
        · exact .noViableAlternative (Nat.le_refl _) started
      · split
        · exact .needsFullContext
        · exact .predicted _

/-- Two remembered predictions in the same state, which have looked at the same. -/
structure Stage.Alike
    (look : Token → Token)
    (start otherStart : Nat)
    (stage : Stage σ)
    (other : Stage τ) :
    Prop where
  number : other.number = stage.number
  memory : other.memory = stage.memory
  looks :
    LookAbreast look start otherStart stage.tokens other.tokens stage.index other.index

namespace Stage.Alike

variable {start otherStart : Nat} {stage : Stage σ} {other : Stage τ}
  (alike : Stage.Alike look start otherStart stage other)
  (shows : Token.Shows look)

include alike shows

theorem symbol : other.symbol = stage.symbol :=
  (shows.type_eq alike.looks.abreast.look_eq).symm

/-- Two predictions go on to the same state, each before its next token. -/
theorem advance
    (number : Nat)
    (memory : Memory) :
    Stage.Alike look start otherStart (stage.advance number memory)
      (other.advance number memory) := by
  have sameSymbol := alike.symbol shows
  by_cases isEnd : stage.symbol = endOfInput
  · simp only [Stage.advance, sameSymbol, isEnd, beq_self_eq_true, if_true]
    exact ⟨rfl, rfl, alike.looks⟩
  · have notEnd : (stage.tokens.token stage.index).isEnd = false := by
      simpa [Token.isEnd, Stage.symbol] using isEnd
    simp only [Stage.advance, sameSymbol, beq_iff_eq, isEnd, if_false]
    exact ⟨rfl, rfl, alike.looks.next shows notEnd⟩

/-- A token settles both predictions in the same way, or leads both to the same state. -/
theorem step
    (setting : Setting) :
    (∃ outcome otherOutcome memory,
      stage.step setting start = .inl (outcome, memory, stage.tokens) ∧
        other.step setting otherStart = .inl (otherOutcome, memory, other.tokens) ∧
          Outcome.Alike look stage.tokens other.tokens start outcome otherOutcome) ∨
      ∃ next otherNext,
        stage.step setting start = .inr next ∧
          other.step setting otherStart = .inr otherNext ∧
            Stage.Alike look start otherStart next otherNext := by
  unfold Stage.step
  rw [alike.symbol shows, alike.number, alike.memory]
  cases successor setting stage.memory stage.number stage.symbol with
  | mk leadsTo memory =>
      cases leadsTo with
      | dead =>
          dsimp only
          cases finishedAlternative? setting (memory.automaton.configurationsOf stage.number)
            memory.store with
          | some alternative => exact .inl ⟨_, _, _, rfl, rfl, .predicted alternative⟩
          | none =>
              exact .inl ⟨_, _, _, rfl, rfl,
                .noViableAlternative alike.looks.ahead alike.looks.abreast⟩
      | state next =>
          dsimp only
          cases memory.automaton.verdictOf? next with
          | some verdict =>
              exact .inl ⟨_, _, _, rfl, rfl, alike_outcomeOf alike.looks.started _ verdict⟩
          | none => exact .inr ⟨_, _, rfl, rfl, alike.advance shows next memory⟩

end Stage.Alike

/-- Two predictions in context with the same configurations, which have looked at the same. -/
structure ContextStage.Alike
    (look : Token → Token)
    (start otherStart : Nat)
    (stage : ContextStage σ)
    (other : ContextStage τ) :
    Prop where
  set : other.set = stage.set
  store : other.store = stage.store
  looks :
    LookAbreast look start otherStart stage.tokens other.tokens stage.index other.index

namespace ContextStage.Alike

variable {start otherStart : Nat} {stage : ContextStage σ} {other : ContextStage τ}
  (alike : ContextStage.Alike look start otherStart stage other)
  (shows : Token.Shows look)

include alike shows

theorem symbol : other.symbol = stage.symbol :=
  (shows.type_eq alike.looks.abreast.look_eq).symm

/-- Two predictions go on with the same configurations, each before its next token. -/
theorem advance
    (set : ConfigurationSet)
    (store : StackStore) :
    ContextStage.Alike look start otherStart (stage.advance set store)
      (other.advance set store) := by
  have sameSymbol := alike.symbol shows
  by_cases isEnd : stage.symbol = endOfInput
  · simp only [ContextStage.advance, sameSymbol, isEnd, beq_self_eq_true, if_true]
    exact ⟨rfl, rfl, alike.looks⟩
  · have notEnd : (stage.tokens.token stage.index).isEnd = false := by
      simpa [Token.isEnd, ContextStage.symbol] using isEnd
    simp only [ContextStage.advance, sameSymbol, beq_iff_eq, isEnd, if_false]
    exact ⟨rfl, rfl, alike.looks.next shows notEnd⟩

/-- A token settles both predictions in the same way, or leads both to the same configurations. -/
theorem step
    (setting : Setting) :
    (∃ outcome otherOutcome store,
      stage.step setting = .inl (outcome, store, stage.tokens) ∧
        other.step setting = .inl (otherOutcome, store, other.tokens) ∧
          Outcome.Alike look stage.tokens other.tokens start outcome otherOutcome) ∨
      ∃ next otherNext,
        stage.step setting = .inr next ∧
          other.step setting = .inr otherNext ∧
            ContextStage.Alike look start otherStart next otherNext := by
  unfold ContextStage.step
  rw [alike.symbol shows, alike.set, alike.store]
  cases reachSet? setting stage.set stage.symbol true stage.store with
  | mk reached? store =>
      cases reached? with
      | none =>
          dsimp only
          cases finishedAlternative? setting stage.set store with
          | some alternative => exact .inl ⟨_, _, _, rfl, rfl, .predicted alternative⟩
          | none =>
              exact .inl ⟨_, _, _, rfl, rfl,
                .noViableAlternative alike.looks.ahead alike.looks.abreast⟩
      | some reached =>
          dsimp only
          cases reached.uniqueAlternative?.or (commonLowest? reached.alternativesByPlace) with
          | some alternative => exact .inl ⟨_, _, _, rfl, rfl, .predicted alternative⟩
          | none => exact .inr ⟨_, _, rfl, rfl, alike.advance shows reached store⟩

end ContextStage.Alike

section Predicting

variable
  (shows : Token.Shows look)
  (setting : Setting)
  {start otherStart : Nat}

include shows

/-- Following the automaton over streams that look the same leads to the same. -/
theorem alike_followAutomaton
    (limit : Nat)
    {stage : Stage σ}
    {other : Stage τ}
    (alike : Stage.Alike look start otherStart stage other) :
    let first :=
      followAutomaton setting start limit stage.number stage.index stage.memory stage.tokens
    let second :=
      followAutomaton setting otherStart limit other.number other.index other.memory other.tokens
    second.2.1 = first.2.1 ∧
      Outcome.Alike look first.2.2 second.2.2 start first.1 second.1 := by
  induction limit generalizing stage other with
  | zero => exact ⟨alike.memory, .needsFullContext⟩
  | succ limit inductionHypothesis =>
      rw [Stage.followAutomaton_succ, Stage.followAutomaton_succ]
      obtain
        ⟨outcome, otherOutcome, memory, settles, otherSettles, alikeOutcome⟩ |
        ⟨next, otherNext, leads, otherLeads, alikeNext⟩ := alike.step shows setting
      · rw [settles, otherSettles]
        exact ⟨rfl, alikeOutcome⟩
      · rw [leads, otherLeads]
        exact inductionHypothesis alikeNext

/-- Simulating the tokens of streams that look the same leads to the same. -/
theorem alike_simulateTokens
    (limit : Nat)
    {stage : ContextStage σ}
    {other : ContextStage τ}
    (alike : ContextStage.Alike look start otherStart stage other) :
    let first := simulateTokens setting limit stage.set stage.index stage.store stage.tokens
    let second := simulateTokens setting limit other.set other.index other.store other.tokens
    second.2.1 = first.2.1 ∧
      Outcome.Alike look first.2.2 second.2.2 start first.1 second.1 := by
  induction limit generalizing stage other with
  | zero => exact ⟨alike.store, .needsFullContext⟩
  | succ limit inductionHypothesis =>
      rw [ContextStage.simulateTokens_succ, ContextStage.simulateTokens_succ]
      obtain
        ⟨outcome, otherOutcome, store, settles, otherSettles, alikeOutcome⟩ |
        ⟨next, otherNext, leads, otherLeads, alikeNext⟩ := alike.step shows setting
      · rw [settles, otherSettles]
        exact ⟨rfl, alikeOutcome⟩
      · rw [leads, otherLeads]
        exact inductionHypothesis alikeNext

variable
  {stream : TokenStream σ}
  {other : TokenStream τ}
  (started : stream.Abreast look other start otherStart)

include started

/-- A remembered prediction comes to the same and learns the same over streams that look the same. -/
theorem alike_predictRemembered
    (memory : Memory) :
    let first := predictRemembered setting memory stream start
    let second := predictRemembered setting memory other otherStart
    second.2.1 = first.2.1 ∧
      Outcome.Alike look first.2.2 second.2.2 start first.1 second.1 := by
  have sameBound : lookaheadBound other = lookaheadBound stream := by
    rw [lookaheadBound, lookaheadBound, TokenStream.visibleCount_eq_of_seen started.seen]
  rw [Stage.predictRemembered_eq, Stage.predictRemembered_eq, sameBound]
  have alike :
      Stage.Alike look start otherStart (Stage.first setting memory stream start)
        (Stage.first setting memory other otherStart) :=
    ⟨rfl, rfl, .ofStart started⟩
  exact alike_followAutomaton shows setting (lookaheadBound stream) alike

/-- A prediction in context comes to the same and learns the same over streams that look the same. -/
theorem alike_predictInContext
    (decisionState : Nat)
    (returnStates : List Nat)
    (store : StackStore) :
    let first := predictInContext setting decisionState returnStates store stream start
    let second := predictInContext setting decisionState returnStates store other otherStart
    second.2.1 = first.2.1 ∧
      Outcome.Alike look first.2.2 second.2.2 start first.1 second.1 := by
  have sameBound : lookaheadBound other = lookaheadBound stream := by
    rw [lookaheadBound, lookaheadBound, TokenStream.visibleCount_eq_of_seen started.seen]
  rw [ContextStage.predictInContext_eq, ContextStage.predictInContext_eq, sameBound]
  have alike :
      ContextStage.Alike look start otherStart
        (ContextStage.first setting decisionState returnStates store stream start)
        (ContextStage.first setting decisionState returnStates store other otherStart) := by
    unfold ContextStage.first
    exact ⟨rfl, rfl, .ofStart started⟩
  -- Which stages these are is of no account from here on.
  generalize ContextStage.first setting decisionState returnStates store stream start = stage
    at alike ⊢
  generalize ContextStage.first setting decisionState returnStates store other otherStart = twin
    at alike ⊢
  exact alike_simulateTokens shows setting (lookaheadBound stream) alike

end Predicting

end Prediction

end GrammarService
