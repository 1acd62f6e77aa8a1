import GrammarService.Parser.Invoke
import GrammarService.Proofs.Network.Shape
import GrammarService.Proofs.Prediction.Stages

namespace GrammarService

/-!
# What the steps of a walk come to

A step of a walk is run on the state of the walk. The lemmas here take a run of a composed step
apart, so that no other proof has to know how failures and state are layered.
-/

namespace Parser

variable {σ : Type} {α β : Type} {run after : Run σ}

/-- What a step comes to when it is taken from a state of the walk, and what it leaves behind. -/
def outcome
    (step : Walk σ α)
    (run : Run σ) :
    Except Failure α × Run σ :=
  step.run.run run

/-- A step that is taken from one state of the walk succeeds and leaves behind another one. -/
def Ends
    (step : Walk σ α)
    (run : Run σ)
    (value : α)
    (after : Run σ) :
    Prop :=
  outcome step run = (.ok value, after)

theorem outcome_bind
    (step : Walk σ α)
    (next : α → Walk σ β)
    (run : Run σ) :
    outcome (step >>= next) run =
      match outcome step run with
      | (.ok value, after) => outcome (next value) after
      | (.error failure, after) => (.error failure, after) := by
  unfold outcome
  rw [ExceptT.run_bind, StateT.run_bind]
  cases step.run.run run with
  | mk result after => cases result <;> rfl

/-- A composed step succeeds if its parts do, one after the other. -/
theorem ends_bind_iff
    {step : Walk σ α}
    {next : α → Walk σ β}
    {value : β} :
    Ends (step >>= next) run value after ↔
      ∃ middle between, Ends step run middle between ∧ Ends (next middle) between value after := by
  unfold Ends
  rw [outcome_bind]
  cases outcome step run with
  | mk result between =>
      cases result with
      | error failure => simp
      | ok middle => simp [and_assoc]

@[simp] theorem outcome_pure
    (value : α)
    (run : Run σ) :
    outcome (pure value) run = (.ok value, run) :=
  rfl

@[simp] theorem outcome_get (run : Run σ) : outcome get run = (.ok run, run) :=
  rfl

@[simp] theorem outcome_set (run next : Run σ) : outcome (set next) run = (.ok (), next) :=
  rfl

@[simp] theorem outcome_modify
    (change : Run σ → Run σ)
    (run : Run σ) :
    outcome (modify change) run = (.ok (), change run) :=
  rfl

@[simp] theorem outcome_modifyGet
    (change : Run σ → α × Run σ)
    (run : Run σ) :
    outcome (modifyGet change) run = (.ok (change run).1, (change run).2) :=
  rfl

@[simp] theorem outcome_fail
    (fault : Fault)
    (run : Run σ) :
    outcome (fail fault : Walk σ α) run = (.error (.fault fault), run) :=
  rfl

@[simp] theorem outcome_reject
    (token : Token)
    (message : String)
    (run : Run σ) :
    outcome (reject token message : Walk σ α) run =
      (.error (.syntaxError (SyntaxError.atToken token message)), run) :=
  rfl

@[simp] theorem ends_pure_iff
    {given value : α} :
    Ends (pure given) run value after ↔ given = value ∧ run = after := by
  simp [Ends]

@[simp] theorem ends_get_iff
    {value : Run σ} :
    Ends get run value after ↔ run = value ∧ run = after := by
  simp [Ends]

@[simp] theorem ends_set_iff
    {next : Run σ}
    {value : Unit} :
    Ends (set next) run value after ↔ next = after := by
  simp [Ends]

@[simp] theorem ends_modify_iff
    {change : Run σ → Run σ}
    {value : Unit} :
    Ends (modify change) run value after ↔ change run = after := by
  simp [Ends]

@[simp] theorem not_ends_fail
    {fault : Fault}
    {value : α} :
    ¬ Ends (fail fault) run value after := by
  simp [Ends]

@[simp] theorem not_ends_reject
    {token : Token}
    {message : String}
    {value : α} :
    ¬ Ends (reject token message) run value after := by
  simp [Ends]

/-- A required value is there when the step succeeds. -/
@[simp] theorem ends_require_iff
    {value? : Option α}
    {fault : Fault}
    {value : α} :
    Ends (require value? fault) run value after ↔ value? = some value ∧ run = after := by
  cases value? <;> simp [require]

@[simp] theorem not_ends_rejectMismatch
    {grammar : ParserGrammar}
    {value : α} :
    ¬ Ends (rejectMismatch grammar) run value after := by
  simp [rejectMismatch, ends_bind_iff]

@[simp] theorem not_ends_rejectExtraneous
    {grammar : ParserGrammar}
    {value : α} :
    ¬ Ends (rejectExtraneous grammar) run value after := by
  simp [rejectExtraneous, ends_bind_iff]

@[simp] theorem not_ends_rejectMissing
    {grammar : ParserGrammar}
    {value : α} :
    ¬ Ends (rejectMissing grammar) run value after := by
  simp [rejectMissing, ends_bind_iff]

/-- The outcome of a walk whose step may have failed. -/
def andThen
    (result : Except Failure α × Run σ)
    (next : Run σ → Except Failure β × Run σ) :
    Except Failure β × Run σ :=
  match result with
  | (.ok _, after) => next after
  | (.error failure, after) => (.error failure, after)

variable [TokenSource σ]

/-- Leave the current state, be it the end of a rule or not. -/
def stepOnce (grammar : ParserGrammar) : Walk σ Unit := do
  if (grammar.network.state (← get).state).kind = .ruleStop then
    leaveRule grammar.network
  else
    leaveState grammar

namespace Run

/-- The walk with one more step counted since a token was consumed. -/
def counted (run : Run σ) : Run σ :=
  { run with idleSteps := run.idleSteps + 1 }

/-- Whether the rule that the walk began with has ended. -/
def hasEnded
    (run : Run σ)
    (network : Network) :
    Bool :=
  (network.state run.state).kind = .ruleStop && (run.link run.context).caller.isNone

end Run

/-- A walk gives up, has ended, or takes one step. -/
theorem outcome_advance
    (grammar : ParserGrammar)
    (run : Run σ) :
    outcome (advance grammar) run =
      if idleLimit grammar.network < run.counted.idleSteps then
        (.error (.fault .noProgress), run.counted)
      else if run.counted.hasEnded grammar.network then
        (.ok true, run.counted)
      else
        andThen (outcome (stepOnce grammar) run.counted) fun after => (.ok false, after) := by
  have ended :
      outcome (atEnd grammar.network) run.counted =
        (.ok (run.counted.hasEnded grammar.network), run.counted) :=
    rfl
  simp only [advance, outcome_bind, outcome_modify]
  change outcome _ run.counted = _
  by_cases idle : idleLimit grammar.network < run.counted.idleSteps
  · have idle' : idleLimit grammar.network < run.idleSteps + 1 := idle
    simp only [idle', idle, ↓reduceIte, outcome_bind, outcome_fail]
  · have idle' : ¬ idleLimit grammar.network < run.idleSteps + 1 := idle
    simp only [idle', idle, ↓reduceIte, outcome_bind, ended]
    by_cases hasEnded : run.counted.hasEnded grammar.network = true
    · simp [hasEnded]
    · simp only [hasEnded, Bool.false_eq_true, ↓reduceIte, stepOnce, outcome_bind, outcome_get]
      split <;> (rw [outcome_bind]; rfl)

/-- A walk goes on if it is neither idle nor at its end and its next step succeeds. -/
theorem goesOn_iff {grammar : ParserGrammar} :
    outcome (advance grammar) run = (.ok false, after) ↔
      run.idleSteps < idleLimit grammar.network ∧
        run.hasEnded grammar.network = false ∧
          Ends (stepOnce grammar) run.counted () after := by
  have sameEnd : run.counted.hasEnded grammar.network = run.hasEnded grammar.network := rfl
  rw [outcome_advance, Ends, sameEnd, Run.counted]
  dsimp only
  split
  · simp
    omega
  · split
    · simp [*]
    · cases outcome (stepOnce grammar) { run with idleSteps := run.idleSteps + 1 } with
      | mk result next =>
          cases result <;> simp [andThen, *]
          omega

/-- A walk has ended if its first rule has and it is not idle. -/
theorem endsWalk_iff {grammar : ParserGrammar} :
    outcome (advance grammar) run = (.ok true, after) ↔
      run.idleSteps < idleLimit grammar.network ∧
        run.hasEnded grammar.network = true ∧ run.counted = after := by
  have sameEnd : run.counted.hasEnded grammar.network = run.hasEnded grammar.network := rfl
  rw [outcome_advance, sameEnd, Run.counted]
  dsimp only
  split
  · simp
    omega
  · split
    · simp [*]
      omega
    · cases outcome (stepOnce grammar) { run with idleSteps := run.idleSteps + 1 } with
      | mk result next => cases result <;> simp [andThen, *]

/-- A walk fails if it is idle, or if it is not at its end and its next step fails. -/
theorem fails_iff
    {grammar : ParserGrammar}
    {failure : Failure} :
    outcome (advance grammar) run = (.error failure, after) ↔
      idleLimit grammar.network ≤ run.idleSteps ∧
          failure = .fault .noProgress ∧ run.counted = after ∨
        run.idleSteps < idleLimit grammar.network ∧
          run.hasEnded grammar.network = false ∧
            outcome (stepOnce grammar) run.counted = (.error failure, after) := by
  have sameEnd : run.counted.hasEnded grammar.network = run.hasEnded grammar.network := rfl
  rw [outcome_advance, sameEnd, Run.counted]
  dsimp only
  split
  · rename_i idle
    have notBefore : ¬ run.idleSteps < idleLimit grammar.network := by omega
    have idle' : idleLimit grammar.network ≤ run.idleSteps := by omega
    simp [notBefore, idle', @eq_comm _ failure]
  · rename_i notIdle
    have before : run.idleSteps < idleLimit grammar.network := by omega
    have notIdle' : ¬ idleLimit grammar.network ≤ run.idleSteps := by omega
    split
    · simp [*]
    · cases outcome (stepOnce grammar) { run with idleSteps := run.idleSteps + 1 } with
      | mk result next => cases result <;> simp [andThen, *]

/-- A walk that goes on comes to what it comes to from where it has got. -/
theorem walk?_of_goesOn
    {grammar : ParserGrammar}
    (goesOn : outcome (advance grammar) run = (.ok false, after)) :
    Run.walk? grammar run = Run.walk? grammar after := by
  rw [Run.walk?]
  rw [outcome] at goesOn
  rw [goesOn]

/-- A walk that has ended comes to its end. -/
theorem walk?_of_ended
    {grammar : ParserGrammar}
    (ended : outcome (advance grammar) run = (.ok true, after)) :
    Run.walk? grammar run = some (.ok (), after) := by
  rw [Run.walk?]
  rw [outcome] at ended
  rw [ended]

/-- A walk that fails comes to its failure. -/
theorem walk?_of_failed
    {grammar : ParserGrammar}
    {failure : Failure}
    (failed : outcome (advance grammar) run = (.error failure, after)) :
    Run.walk? grammar run = some (.error failure, after) := by
  rw [Run.walk?]
  rw [outcome] at failed
  rw [failed]

/--
What holds at the last step of a walk, and before a step where it holds behind it, holds of what the
walk comes to.
-/
theorem walk?_induction
    {grammar : ParserGrammar}
    (property : Run σ → Except Failure Unit × Run σ → Prop)
    (goesOn :
      ∀ run next comes,
        outcome (advance grammar) run = (.ok false, next) →
          property next comes → property run comes)
    (ended :
      ∀ run next,
        outcome (advance grammar) run = (.ok true, next) → property run (.ok (), next))
    (failed :
      ∀ run next failure,
        outcome (advance grammar) run = (.error failure, next) →
          property run (.error failure, next))
    {comes : Except Failure Unit × Run σ}
    (isRun : Run.walk? grammar run = some comes) :
    property run comes := by
  refine Run.walk?.partial_correctness grammar property ?_ run comes isRun
  intro walkOn inductionHypothesis run comes isRun
  split at isRun
  · rename_i next stepped
    exact goesOn run next comes stepped (inductionHypothesis next comes isRun)
  · rename_i next stepped
    cases isRun
    exact ended run next stepped
  · rename_i failure next stepped
    cases isRun
    exact failed run next failure stepped

/-- What a walk comes to is its outcome. -/
theorem outcome_walk_of_some
    {grammar : ParserGrammar}
    {comes : Except Failure Unit × Run σ}
    (isRun : Run.walk? grammar run = some comes) :
    outcome (walk grammar) run = comes := by
  change (Run.walk? grammar run).getD _ = _
  rw [isRun, Option.getD_some]

/-- A walk that never ends leaves everything as it was. -/
theorem outcome_walk_of_none
    {grammar : ParserGrammar}
    (isEndless : Run.walk? grammar run = none) :
    outcome (walk grammar) run = (.error (.fault .endless), run) := by
  change (Run.walk? grammar run).getD _ = _
  rw [isEndless, Option.getD_none]

/-- A walk takes so many steps to come from one of its states to another. -/
inductive Advances (grammar : ParserGrammar) : (count : Nat) → Run σ → Run σ → Prop where
  | stay
      {run : Run σ} :
      Advances grammar 0 run run
  | step
      {count : Nat}
      {run next after : Run σ}
      (goesOn : outcome (advance grammar) run = (.ok false, next))
      (rest : Advances grammar count next after) :
      Advances grammar (count + 1) run after

namespace Advances

variable {grammar : ParserGrammar} {count later : Nat} {middle : Run σ}

theorem trans
    (first : Advances grammar count run middle)
    (second : Advances grammar later middle after) :
    Advances grammar (count + later) run after := by
  induction first with
  | stay => simpa using second
  | step goesOn _ inductionHypothesis =>
      rw [Nat.add_right_comm]
      exact .step goesOn (inductionHypothesis second)

/-- A walk comes to what it comes to from where it has got. -/
theorem walk?_eq
    (advances : Advances grammar count run after) :
    Run.walk? grammar run = Run.walk? grammar after := by
  induction advances with
  | stay => rfl
  | step goesOn _ inductionHypothesis => rw [walk?_of_goesOn goesOn, inductionHypothesis]

end Advances

/-- A walk that succeeds comes to its end. -/
theorem ends_walk_iff {grammar : ParserGrammar} :
    Ends (walk grammar) run () after ↔ Run.walk? grammar run = some (.ok (), after) := by
  change (Run.walk? grammar run).getD _ = _ ↔ _
  cases Run.walk? grammar run <;> simp

/--
What one step keeps while the first rule has not ended holds when a walk has succeeded, and the
first rule has ended then.
-/
theorem Ends.walk_induction
    {grammar : ParserGrammar}
    (property : Run σ → Prop)
    (counts : ∀ run, property run → property run.counted)
    (keeps :
      ∀ run after, property run →
        run.hasEnded grammar.network = false →
          Ends (stepOnce grammar) run () after →
            property after)
    {run after : Run σ}
    (ends : Ends (walk grammar) run () after)
    (holds : property run) :
    property after ∧ after.hasEnded grammar.network = true := by
  refine walk?_induction
    (fun run comes => property run → comes = (.ok (), after) →
      property after ∧ after.hasEnded grammar.network = true)
    ?_ ?_ ?_ (ends_walk_iff.mp ends) holds rfl
  · intro run next comes goesOn inductionHypothesis holds isRun
    obtain ⟨-, notEnded, stepped⟩ := goesOn_iff.mp goesOn
    exact inductionHypothesis (keeps run.counted next (counts run holds) notEnded stepped) isRun
  · intro run next ended holds isRun
    obtain ⟨-, hasEnded, rfl⟩ := endsWalk_iff.mp ended
    cases isRun
    exact ⟨counts run holds, hasEnded⟩
  · intro run next failure _ _ isRun
    cases isRun

/-- A walk that has entered the rule that it begins with. -/
def Run.begun
    (run : Run σ)
    (network : Network)
    (rule : Nat) :
    Run σ :=
  let run := run.addContext ⟨none, none⟩ rule
  if network.isLeftRecursive rule then
    run.enterRecursion 0 (network.startOf rule) 0
  else
    run.enterRule 0 (network.startOf rule)

/-- Leave the rule that a walk began with, and give the root of its tree. -/
def leaveFirst
    (network : Network)
    (rule : Nat) :
    Walk σ Nat := do
  if network.isLeftRecursive rule then
    let run ← get
    match run.recursions with
    | [] => fail .noRecursionToLeave
    | outer :: recursions =>
        set ({ run with recursions := recursions }.leaveRecursion outer.parent)
        return run.context
  else
    return (← get).context

/-- A rule is parsed by entering it, walking to its end and leaving it. -/
theorem parseRule_eq
    (grammar : ParserGrammar)
    (rule : Nat) :
    (parseRule grammar rule : Walk σ Nat) =
      (do
        modify fun run => run.begun grammar.network rule
        walk grammar
        leaveFirst grammar.network rule) :=
  rfl

namespace Run

omit [TokenSource σ] in
@[simp] theorem tokens_begun
    (run : Run σ)
    (network : Network)
    (rule : Nat) :
    (run.begun network rule).tokens = run.tokens := by
  unfold begun enterRule
  split
  · rfl
  · dsimp only
    split <;> rfl

omit [TokenSource σ] in
@[simp] theorem cache_begun
    (run : Run σ)
    (network : Network)
    (rule : Nat) :
    (run.begun network rule).cache = run.cache := by
  unfold begun enterRule
  split
  · rfl
  · dsimp only
    split <;> rfl

end Run

/-- A rule whose walk never ends is never parsed. -/
theorem outcome_parseRule_of_none
    {grammar : ParserGrammar}
    {rule : Nat}
    (isEndless : Run.walk? grammar (run.begun grammar.network rule) = none) :
    outcome (parseRule grammar rule) run =
      (.error (.fault .endless), run.begun grammar.network rule) := by
  rw [parseRule_eq, outcome_bind, outcome_modify]
  dsimp only
  rw [outcome_bind, outcome_walk_of_none isEndless]

/-- One state of the walk differs from another only in what was looked at and remembered. -/
structure Quiet
    (before after : Run σ) :
    Prop where
  same : after = { before with tokens := after.tokens, cache := after.cache }
  continues : before.tokens.Continues after.tokens

namespace Quiet

theorem refl (run : Run σ) : Quiet run run where
  same := rfl
  continues := .refl run.tokens

theorem trans
    {first second third : Run σ}
    (earlier : Quiet first second)
    (later : Quiet second third) :
    Quiet first third where
  same := by
    rw [later.same, earlier.same]
  continues := earlier.continues.trans later.continues

end Quiet

omit [TokenSource σ] in
/-- A token that is no extra one is reported as standing after a missing one, or as a mismatch. -/
theorem not_ends_rejectUnexpected
    {grammar : ParserGrammar}
    {current : Int}
    {value : α} :
    ¬ Ends
      (do
        let run ← get
        match (grammar.network.state run.state).edges.head? with
        | some first =>
            if (run.expectedAt grammar.network first.target).contains current then
              rejectMissing grammar
            else
              rejectMismatch grammar
        | none => rejectMismatch grammar : Walk σ α) run value after := by
  intro ends
  simp only [ends_bind_iff] at ends
  obtain ⟨_, _, _, ends⟩ := ends
  split at ends
  · split at ends <;> simp at ends
  · simp at ends

@[simp] theorem not_ends_rejectAlternatives
    {offending : Nat}
    {value : α} :
    ¬ Ends (rejectAlternatives offending) run value after := by
  simp [rejectAlternatives, ends_bind_iff]

@[simp] theorem not_ends_rejectCurrent
    {grammar : ParserGrammar}
    {value : α} :
    ¬ Ends (rejectCurrent grammar) run value after := by
  intro ends
  obtain ⟨_, _, _, ends⟩ := ends_bind_iff.mp ends
  dsimp only at ends
  split at ends
  · obtain ⟨_, _, _, ends⟩ := ends_bind_iff.mp ends
    obtain ⟨_, _, _, ends⟩ := ends_bind_iff.mp ends
    split at ends
    · simp [ends_bind_iff] at ends
    · exact not_ends_rejectUnexpected ends
  · exact not_ends_rejectUnexpected ends

/-- A check that succeeds has taken tokens only. -/
theorem Ends.quiet_checkCurrent
    {grammar : ParserGrammar}
    (ends : Ends (checkCurrent grammar) run () after) :
    Quiet run after := by
  simp only [checkCurrent, ends_bind_iff, ends_get_iff] at ends
  obtain ⟨_, _, ⟨rfl, rfl⟩, ends⟩ := ends
  split at ends
  · rw [ends_pure_iff] at ends
    exact ends.2 ▸ Quiet.refl run
  · split at ends
    · split at ends
      · simp only [ends_bind_iff] at ends
        obtain ⟨_, _, _, ends⟩ := ends
        split at ends
        · simp [ends_bind_iff] at ends
        · simp at ends
      · simp at ends
    · split at ends
      · simp at ends
      · rw [ends_pure_iff] at ends
        exact ends.2 ▸ Quiet.refl run

/-- Where an outcome gives an alternative, nothing was done to get it. -/
theorem Ends.quiet_conclude
    {outcome : Prediction.Outcome}
    {alternative : Nat}
    (ends :
      Ends
        (match outcome with
        | .predicted alternative => pure alternative
        | .noViableAlternative offending => rejectAlternatives offending
        | .needsFullContext => fail .unsettled) run alternative after) :
    Quiet run after := by
  cases outcome with
  | predicted alternative =>
      rw [ends_pure_iff] at ends
      exact ends.2 ▸ Quiet.refl run
  | noViableAlternative offending => simp at ends
  | needsFullContext => simp at ends

/-- A remembered prediction has changed what was looked at and remembered only. -/
theorem Ends.quiet_predictRemembered
    {network : Network}
    {decision : Nat}
    {outcome : Prediction.Outcome}
    (ends : Ends (predictRemembered network decision) run outcome after) :
    Quiet run after := by
  simp only [predictRemembered, automatonOf, ends_bind_iff, ends_get_iff,
    ends_require_iff] at ends
  obtain ⟨_, _, ⟨_, _, ⟨rfl, rfl⟩, _, rfl⟩, ends⟩ := ends
  cases ends
  exact ⟨rfl, Prediction.continues_predictRemembered _ _ _ _⟩

/-- So has a prediction in context. -/
theorem Ends.quiet_predictInContext
    {network : Network}
    {decision : Nat}
    {outcome : Prediction.Outcome}
    (ends : Ends (predictInContext network decision) run outcome after) :
    Quiet run after := by
  simp only [predictInContext, automatonOf, ends_bind_iff, ends_get_iff,
    ends_require_iff] at ends
  obtain ⟨_, _, ⟨_, _, ⟨rfl, rfl⟩, _, rfl⟩, ends⟩ := ends
  cases ends
  exact ⟨rfl, Prediction.continues_predictInContext _ _ _ _ _ _⟩

/-- A prediction that succeeds has changed what was looked at and remembered only. -/
theorem Ends.quiet_predict
    {network : Network}
    {state : Network.State}
    {alternative : Nat}
    (ends : Ends (predict network state) run alternative after) :
    Quiet run after := by
  obtain ⟨_, _, decided, ends⟩ := ends_bind_iff.mp ends
  rw [ends_require_iff] at decided
  obtain ⟨_, rfl⟩ := decided
  obtain ⟨first, between, ends_first, ends⟩ := ends_bind_iff.mp ends
  have quiet := ends_first.quiet_predictRemembered
  cases first with
  | needsFullContext =>
      obtain ⟨_, _, ends_second, ends⟩ := ends_bind_iff.mp ends
      exact (quiet.trans ends_second.quiet_predictInContext).trans (Ends.quiet_conclude ends)
  | predicted predicted =>
      exact quiet.trans (@Ends.quiet_conclude σ between after _ (.predicted predicted) alternative ends)
  | noViableAlternative offending =>
      exact quiet.trans (@Ends.quiet_conclude σ between after _ (.noViableAlternative offending) alternative ends)

end Parser

end GrammarService
